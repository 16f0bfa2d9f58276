/-
# LoopScript.Proofs.Session.Isolation — executions of one engine do not affect each other

Many executions share the engine and the scripts of a session, and their steps may come in any order,
with writes to the copies that were handed out between them. `alone` leaves of such steps those that one
execution would see if it were the only one: the functions registered before it is made, the scripts that
are compiled, and its own steps. `step_isolated` states that this makes no difference to it. Whatever
steps have been taken, a step that names the execution has the same answer and leaves the same bindings as
after its own steps only.

What the functions do is any `Host`: by its type a function has nothing to act on but the execution that
calls it and its arguments, and `Host.Unfailing` says that it does not make writing fail. Every
registration makes another function, so a host may tell any two of them apart, whatever actions they were
registered with.

What an answer tells of the engine, the functions registered by then, is not told of the execution
(`Answer.ofExecution`). A step may bind a function that it only names; such a step asks the engine for it,
so the statement is about steps that are handed the value they bind (`Step.given`).

`perform_leaves` says what an act leaves beside the address it works on, and `perform_seen` what it does to
the bindings there. The rest is a simulation of one session by the other (`Shadows`).
-/
import LoopScript.Proofs.Host.Procedure
import LoopScript.Proofs.Session.Separation

namespace LoopScript

set_option autoImplicit false

/-- Functions do not make a sink refuse writes that has taken every one. -/
def Host.Unfailing (host : Host) : Prop :=
  ∀ f args, (host f args).Within fun x y => x.sink.limit = none → y.sink.limit = none

theorem Procedures.toHost_unfailing (procedures : Procedures) (budget : Nat) :
    (procedures.toHost budget).Unfailing :=
  procedures.toHost_within Sink.unlimited_steady Sink.unlimited_of_write budget

namespace Session

/-! ## What the other steps leave -/

/-- What an answer tells of the execution that the step names. -/
def Answer.ofExecution : Answer → Option Answer
  | .builtins _ => none
  | .copies listed _ => some (.names listed)
  | answer => some answer

/-- The step is handed the value that it binds, if it binds one. -/
def Step.given (st : Step) : Bool :=
  match st.act with
  | .define _ (.function _) => false
  | _ => true

/-- What a step of another execution leaves to do: a script is compiled, and a function is registered if
it comes before the execution is made. -/
def Step.shared (made : Bool) (st : Step) : List Step :=
  match st.act with
  | .compile name source => [⟨none, .compile name source⟩]
  | .register name action => if made then [] else [⟨none, .register name action⟩]
  | _ => []

/-- The steps as one execution would take them if it were the only one; `made` if it is there already. -/
def alone (id : Text) (made : Bool) : List Step → List Step
  | [] => []
  | st :: rest =>
      if st.execution = some id then st :: alone id true rest
      else st.shared made ++ alone id made rest

/-- The session after steps, if all of them have an answer. -/
def after (host : Host) (budget : Nat) : Session → List Step → Option Session
  | s, [] => some s
  | s, st :: rest =>
      match s.stepWith host budget st with
      | some (next, _) => after host budget next rest
      | none => none

/-- What a step shows of an execution: the answer, as far as it tells of the execution, and the bindings
that the execution has then. -/
def seen (id : Text) (ended : Session × Answer) : Option Answer × Option Env :=
  (ended.2.ofExecution, ended.1.bindings id)

variable {host : Host} {budget : Nat} {s t next : Session} {answer : Answer} {id : Text}
variable {execution : Option Text} {named : Bool} {a : Heap.Address} {act : Act}

/-! ## What an act changes -/

namespace Act

def scripts (before : Table Script) : Act → Table Script
  | .compile name source =>
      match Script.compile source with
      | .ok script => before.insert name script
      | .error _ => before
  | _ => before

/-- The engine after an act that is handed the value it binds. -/
def engine (before : Engine) : Act → Engine
  | .register name action => before.register name action
  | _ => before

/-- The act looks at bindings, or hands copies of them out and writes to these. -/
def looks : Act → Bool
  | .builtins | .runNowhere _ | .names | .lookup _ | .lookupFunction _ | .bindings => true
  | .overwrite _ _ | .editCopies _ => true
  | .register _ _ | .compile _ _ | .run _ | .define _ _ => false

/-- What an act tells of the execution it works on, and the bindings that it leaves there, as far as the
budget goes. They depend on nothing but the bindings before, the scripts and the sink. -/
def comesTo (host : Host) (budget : Nat) (scripts : Table Script) (sink : Sink) (env : Env) :
    Act → Option (Option Answer × Env)
  | .register _ _ | .overwrite _ _ => some (some .done, env)
  | .builtins => some (none, env)
  | .compile _ source =>
      match Script.compile source with
      | .ok script => some (some (.compiled script.program.length), env)
      | .error errors => some (some (.rejected source errors), env)
  | .run name =>
      match scripts.get? name with
      | none => some (some .noScript, env)
      | some script =>
          match script.runWith host budget ⟨env, sink, none⟩ with
          | .ok _ x => some (some (.ran none (some x.env) x.sink.contents), x.env)
          | .error e x => some (some (.ran (some e) (some x.env) x.sink.contents), x.env)
          | .exhausted => none
  | .runNowhere name =>
      match scripts.get? name with
      | some _ => some (some .noExecution, env)
      | none => some (some .noScript, env)
  | .define name (.value v) => some (some (.names (env.insert name v).names), env.insert name v)
  | .define _ (.function _) => none
  | .names | .editCopies _ => some (some (.names env.names), env)
  | .lookup name =>
      match env.lookup name with
      | .ok v => some (some (.value v), env)
      | .error f => some (some (.fault f), env)
  | .lookupFunction name =>
      match env.lookupFunction name with
      | .ok f => some (some (.function f.name), env)
      | .error f => some (some (.fault f), env)
  | .bindings => some (some (.bindings env), env)

end Act

/-- Looking at bindings makes no difference to them, and neither does what is done to copies. -/
theorem perform_keeps (looks : act.looks = true)
    (performed : s.perform host budget named a act = some (next, answer)) : s.Keeps next := by
  cases act with
  | builtins =>
      cases performed
      exact s.handOut_keeps s.builtins
  | bindings =>
      cases performed
      exact s.handOut_keeps a
  | editCopies name =>
      cases performed
      exact s.editCopies_keeps a name
  | overwrite copy contents =>
      rw [perform] at performed
      cases handed : s.copies[copy]? with
      | none =>
          rw [handed] at performed
          cases performed
          exact .refl s
      | some c =>
          rw [handed] at performed
          cases performed
          exact write_copy_keeps (Array.mem_of_getElem? handed) contents
  | names =>
      cases performed
      exact .refl s
  | runNowhere name =>
      rw [perform] at performed
      split at performed <;> cases performed <;> exact .refl s
  | lookup name | lookupFunction name =>
      rw [perform] at performed
      split at performed <;> cases performed <;> exact .refl s
  | register | compile | run | define => cases looks

/-- What an act on the execution at `a` may leave: beside the tables there and the copies all are as
before, the scripts and the engine are the given ones, and the sink is empty and takes every write. -/
structure Leaves (s : Session) (a : Heap.Address) (scripts : Table Script) (engine : Engine)
    (next : Session) : Prop extends Extends s next where
  others : ∀ b, s.Reserved b → b ≠ a → next.heap.read b = s.heap.read b
  scripts : next.scripts = scripts
  engine : next.engine = engine
  sink : next.sink = .empty none

theorem Keeps.leaves (keeps : s.Keeps next) (separated : s.Separated) (sink : s.sink = .empty none) :
    Leaves s a s.scripts s.engine next where
  toExtends := keeps.toExtends
  others b reserved _ := keeps.reads b reserved.held reserved.not_copy
  scripts := keeps.scripts
  engine := keeps.engine separated
  sink := keeps.sink.trans sink

/-- An act that puts new bindings into the execution. -/
theorem leaves_of_write (reserved : s.Reserved a) (env : Env) {sink : Sink} (empty : sink = .empty none) :
    Leaves s a s.scripts s.engine { s with heap := s.heap.write a env, sink := sink } where
  executions := rfl
  builtins := rfl
  size := Nat.le_of_eq Heap.size_write.symm
  copies _ handed := .inl handed
  others _ _ other := Heap.read_write_ne other
  scripts := rfl
  engine := congrArg (Engine.mk · s.next) (Heap.read_write_ne reserved.ne_builtins.symm)
  sink := empty

theorem register_leaves (separated : s.Separated) (sink : s.sink = .empty none) (engine : Engine) :
    Leaves s a s.scripts engine
      { s with heap := s.heap.write s.builtins engine.builtins, next := engine.next } where
  executions := rfl
  builtins := rfl
  size := Nat.le_of_eq Heap.size_write.symm
  copies _ handed := .inl handed
  others _ reserved _ := Heap.read_write_ne reserved.ne_builtins
  scripts := rfl
  engine := congrArg (Engine.mk · engine.next) (Heap.read_write_self separated.builtins)
  sink := sink

/-- After a run from an empty sink that takes every write, the sink is drained to an empty one. -/
theorem drain_of_run (unfailing : host.Unfailing) {script : Script} {x y : Execution}
    (sink : x.sink = .empty none) (reached : (script.runWith host budget x).Reaches y) :
    y.sink.drain = .empty none := by
  have unlimited :=
    script.runWith_within Sink.unlimited_steady unfailing budget x y reached (by rw [sink]; rfl)
  rw [Sink.drain, unlimited]
  rfl

theorem runScript_leaves (unfailing : host.Unfailing) {script : Script} (reserved : s.Reserved a)
    (ran : s.runScript host budget named a script = some (next, answer)) (sink : s.sink = .empty none) :
    Leaves s a s.scripts s.engine next := by
  rw [runScript] at ran
  dsimp only at ran
  cases ended : script.runWith host budget ⟨s.heap.read a, s.sink, none⟩ with
  | ok _ x | error e x =>
      rw [ended] at ran
      cases ran
      exact leaves_of_write reserved x.env (drain_of_run unfailing sink (by rw [ended]; rfl))
  | exhausted =>
      rw [ended] at ran
      cases ran

/-- Beside the execution that it works on and the copies, an act changes scripts by compiling and the
engine by registering. -/
theorem perform_leaves (unfailing : host.Unfailing) (separated : s.Separated) (reserved : s.Reserved a)
    (performed : s.perform host budget named a act = some (next, answer))
    (given : Step.given ⟨execution, act⟩ = true) (sink : s.sink = .empty none) :
    Leaves s a (act.scripts s.scripts) (act.engine s.engine) next := by
  have unchanged : Leaves s a s.scripts s.engine s := (Keeps.refl s).leaves separated sink
  cases act with
  | register name action =>
      cases performed
      exact register_leaves separated sink _
  | compile name source =>
      rw [perform] at performed
      rw [Act.scripts]
      cases compiled : Script.compile source with
      | ok | error =>
          rw [compiled] at performed
          cases performed
          exact { unchanged with scripts := rfl }
  | run name =>
      rw [perform] at performed
      cases found : s.scripts.get? name with
      | none =>
          rw [found] at performed
          cases performed
          exact unchanged
      | some script =>
          rw [found] at performed
          exact runScript_leaves unfailing reserved performed sink
  | define name mention =>
      cases mention with
      | value v =>
          cases performed
          exact leaves_of_write reserved _ sink
      | function callee => cases given
  | builtins | runNowhere | names | lookup | lookupFunction | bindings | overwrite | editCopies =>
      exact (perform_keeps rfl performed).leaves separated sink

/-- What an act does to the execution that it works on, and what it tells of it. -/
theorem perform_seen (host : Host) (budget : Nat) (reserved : s.Reserved a)
    (given : Step.given ⟨execution, act⟩ = true) :
    (s.perform host budget true a act).map (fun ended => (ended.2.ofExecution, ended.1.heap.read a)) =
      act.comesTo host budget s.scripts s.sink (s.heap.read a) := by
  cases act with
  | register name action =>
      have same : (s.heap.write s.builtins (s.engine.register name action).builtins).read a =
          s.heap.read a := Heap.read_write_ne reserved.ne_builtins
      simp [perform, Act.comesTo, Answer.ofExecution, same]
  | builtins =>
      have same := (s.handOut_keeps s.builtins).reads a reserved.held reserved.not_copy
      simp [perform, Act.comesTo, Answer.ofExecution, same]
  | bindings =>
      have same := (s.handOut_keeps a).reads a reserved.held reserved.not_copy
      simp [perform, Act.comesTo, Answer.ofExecution, same, s.handOut_read a]
  | editCopies name =>
      have same := (s.editCopies_keeps a name).reads a reserved.held reserved.not_copy
      simp [perform, Act.comesTo, Answer.ofExecution, same]
  | overwrite copy contents =>
      simp only [perform, Act.comesTo]
      cases handed : s.copies[copy]? with
      | none => rfl
      | some c =>
          have same := (write_copy_keeps (Array.mem_of_getElem? handed) contents).reads a
            reserved.held reserved.not_copy
          simp [Answer.ofExecution, same]
  | compile name source =>
      simp only [perform, Act.comesTo]
      cases Script.compile source <;> rfl
  | run name =>
      simp only [perform, Act.comesTo]
      cases s.scripts.get? name with
      | none => rfl
      | some script =>
          simp only [runScript]
          cases script.runWith host budget ⟨s.heap.read a, s.sink, none⟩ with
          | ok _ x | error e x =>
              simp [Answer.ofExecution, Heap.read_write_self reserved.held]
          | exhausted => rfl
  | runNowhere name =>
      simp only [perform, Act.comesTo]
      cases s.scripts.get? name <;> rfl
  | define name mention =>
      cases mention with
      | value v =>
          have bound : (s.heap.define a name v).read a = (s.heap.read a).insert name v :=
            Heap.read_write_self reserved.held
          simp [perform, Act.comesTo, Engine.resolve, Answer.ofExecution, bound]
      | function callee => cases given
  | names => rfl
  | lookup name =>
      simp only [perform, Act.comesTo]
      cases (s.heap.read a).lookup name <;> rfl
  | lookupFunction name =>
      simp only [perform, Act.comesTo]
      cases (s.heap.read a).lookupFunction name <;> rfl

/-! ## The two sessions side by side -/

/-- What a step shows of the execution that it names. -/
theorem stepWith_seen (unfailing : host.Unfailing) (budget : Nat) (separated : s.Separated)
    (sink : s.sink = .empty none) (given : Step.given ⟨some id, act⟩ = true) :
    (s.stepWith host budget ⟨some id, act⟩).map (seen id) =
      (act.comesTo host budget s.scripts s.sink ((s.bindings id).getD s.engine.builtins)).map
        fun (answer, env) => (answer, some env) := by
  have enters := enter_enters separated (some id)
  rw [stepWith]
  generalize s.enter (some id) = entered at enters
  obtain ⟨a, entered⟩ := entered
  obtain ⟨found, bound⟩ := enters.own id rfl
  have shown := perform_seen host budget enters.reserved given
  rw [enters.scripts, enters.sink, bound] at shown
  rw [← shown, Option.map_map]
  refine Option.map_congr fun ended performed => ?_
  have left := perform_leaves unfailing enters.separated enters.reserved performed given
    (enters.sink.trans sink)
  simp only [seen, Function.comp, Session.bindings, left.executions, found, Option.map_some]

/-- What a step leaves beside the execution that it names. -/
theorem stepWith_leaves (unfailing : host.Unfailing) (separated : s.Separated)
    (sink : s.sink = .empty none) {st : Step} (given : st.given = true)
    (taken : s.stepWith host budget st = some (next, answer)) :
    next.Separated ∧ next.scripts = st.act.scripts s.scripts ∧
      next.engine = st.act.engine s.engine ∧ next.sink = .empty none ∧
      ∀ id, st.execution ≠ some id → next.bindings id = s.bindings id := by
  obtain ⟨execution, act⟩ := st
  have enters := enter_enters separated execution
  rw [stepWith] at taken
  generalize s.enter execution = entered at enters taken
  obtain ⟨a, entered⟩ := entered
  have left := perform_leaves unfailing enters.separated enters.reserved taken given
    (enters.sink.trans sink)
  refine ⟨left.separated enters.separated, enters.scripts ▸ left.scripts, enters.engine ▸ left.engine,
    left.sink, fun id other => ?_⟩
  obtain ⟨same, apart⟩ := enters.others id other
  rw [← same, Session.bindings, Session.bindings, left.executions]
  refine Option.map_congr fun b found => left.others b (enters.separated.reserved found) ?_
  rintro rfl
  exact apart found

/-- For one execution the second session is like the first: it has the same bindings, or none yet and then
the same functions are registered. -/
structure Shadows (id : Text) (s t : Session) : Prop where
  bindings : t.bindings id = s.bindings id
  scripts : t.scripts = s.scripts
  engine : s.bindings id = none → t.engine = s.engine
  separated : s.Separated
  otherSeparated : t.Separated
  sink : s.sink = .empty none
  otherSink : t.sink = .empty none

/-- A step that names the execution shows the same in both. -/
theorem Shadows.step_seen (unfailing : host.Unfailing) (budget : Nat) (shadows : Shadows id s t)
    (given : Step.given ⟨some id, act⟩ = true) :
    (t.stepWith host budget ⟨some id, act⟩).map (seen id) =
      (s.stepWith host budget ⟨some id, act⟩).map (seen id) := by
  have same : (t.bindings id).getD t.engine.builtins = (s.bindings id).getD s.engine.builtins := by
    rw [shadows.bindings]
    cases made : s.bindings id with
    | some env => rfl
    | none => rw [shadows.engine made]
  rw [stepWith_seen unfailing budget shadows.separated shadows.sink given,
    stepWith_seen unfailing budget shadows.otherSeparated shadows.otherSink given, same, shadows.scripts,
    shadows.sink, shadows.otherSink]

/-- A step that names the execution is taken in both, and they stay alike. -/
theorem Shadows.own (unfailing : host.Unfailing) (shadows : Shadows id s t)
    (given : Step.given ⟨some id, act⟩ = true)
    (taken : s.stepWith host budget ⟨some id, act⟩ = some (next, answer)) :
    (next.bindings id).isSome ∧ ∃ next' answer',
      t.stepWith host budget ⟨some id, act⟩ = some (next', answer') ∧ Shadows id next next' := by
  have same := shadows.step_seen unfailing budget given
  have shown := stepWith_seen unfailing budget shadows.separated shadows.sink given
  rw [taken] at same shown
  have there : (next.bindings id).isSome := by
    obtain ⟨⟨told, env⟩, -, ended⟩ := Option.map_eq_some_iff.mp shown.symm
    rw [show next.bindings id = some env from (congrArg Prod.snd ended).symm]
    rfl
  obtain ⟨⟨next', answer'⟩, otherTaken, alike⟩ := Option.map_eq_some_iff.mp same
  obtain ⟨separated, scripts, -, sink, -⟩ :=
    stepWith_leaves unfailing shadows.separated shadows.sink given taken
  obtain ⟨otherSeparated, otherScripts, -, otherSink, -⟩ :=
    stepWith_leaves unfailing shadows.otherSeparated shadows.otherSink given otherTaken
  refine ⟨there, next', answer', otherTaken, congrArg Prod.snd alike, ?_, ?_, separated, otherSeparated,
    sink, otherSink⟩
  · rw [otherScripts, scripts, shadows.scripts]
  · intro absent
    rw [absent] at there
    cases there

/-- A step that names no execution, as the only one. -/
theorem after_unnamed (unfailing : host.Unfailing) (budget : Nat) (act : Act)
    (separated : s.Separated) (sink : s.sink = .empty none) (given : Step.given ⟨none, act⟩ = true)
    (taken : (s.stepWith host budget ⟨none, act⟩).isSome) :
    ∃ next, s.after host budget [⟨none, act⟩] = some next ∧ next.Separated ∧
      next.scripts = act.scripts s.scripts ∧ next.engine = act.engine s.engine ∧
      next.sink = .empty none ∧ ∀ id, next.bindings id = s.bindings id := by
  obtain ⟨⟨next, answer⟩, taken⟩ := Option.isSome_iff_exists.mp taken
  obtain ⟨nextSeparated, scripts, engine, nextSink, others⟩ :=
    stepWith_leaves unfailing separated sink given taken
  refine ⟨next, ?_, nextSeparated, scripts, engine, nextSink, fun id => others id nofun⟩
  rw [after, taken]
  rfl

/-- What `shared` leaves of an act compiles and registers as the act does. -/
theorem after_shared (unfailing : host.Unfailing) (budget : Nat) (separated : s.Separated)
    (sink : s.sink = .empty none) (st : Step) (made : Bool) :
    ∃ next, s.after host budget (st.shared made) = some next ∧ next.Separated ∧
      next.scripts = st.act.scripts s.scripts ∧ (made = false → next.engine = st.act.engine s.engine) ∧
      next.sink = .empty none ∧ ∀ id, next.bindings id = s.bindings id := by
  obtain ⟨execution, act⟩ := st
  cases act with
  | compile name source =>
      have taken : (s.stepWith host budget ⟨none, .compile name source⟩).isSome := by
        simp only [stepWith, perform]
        cases Script.compile source <;> rfl
      obtain ⟨next, reached, nextSeparated, scripts, engine, rest⟩ :=
        after_unnamed unfailing budget (.compile name source) separated sink rfl taken
      exact ⟨next, reached, nextSeparated, scripts, fun _ => engine, rest⟩
  | register name action =>
      cases made with
      | false =>
          obtain ⟨next, reached, nextSeparated, scripts, engine, rest⟩ :=
            after_unnamed unfailing budget (.register name action) separated sink rfl rfl
          exact ⟨next, reached, nextSeparated, scripts, fun _ => engine, rest⟩
      | true =>
          exact ⟨s, rfl, separated, rfl, fun same => absurd same.symm Bool.false_ne_true, sink,
            fun _ => rfl⟩
  | _ => exact ⟨s, rfl, separated, rfl, fun _ => rfl, sink, fun _ => rfl⟩

/-- Of a step of another execution, what `shared` leaves keeps the two alike. -/
theorem Shadows.other (unfailing : host.Unfailing) (shadows : Shadows id s t) {st : Step}
    (other : st.execution ≠ some id) (given : st.given = true)
    (taken : s.stepWith host budget st = some (next, answer)) :
    next.bindings id = s.bindings id ∧
      ∃ next', t.after host budget (st.shared (s.bindings id).isSome) = some next' ∧
        Shadows id next next' := by
  obtain ⟨separated, scripts, engine, sink, others⟩ :=
    stepWith_leaves unfailing shadows.separated shadows.sink given taken
  have same := others id other
  obtain ⟨next', shared, otherSeparated, otherScripts, otherEngine, otherSink, otherSame⟩ :=
    after_shared unfailing budget shadows.otherSeparated shadows.otherSink st
      (s.bindings id).isSome
  refine ⟨same, next', shared, ?_, ?_, ?_, separated, otherSeparated, sink, otherSink⟩
  · rw [otherSame, shadows.bindings, same]
  · rw [otherScripts, scripts, shadows.scripts]
  · intro absent
    rw [same] at absent
    rw [otherEngine (by rw [absent]; rfl), engine, shadows.engine absent]

/-! ## Whole sessions -/

theorem after_append (more : List Step) : ∀ (steps : List Step) (s : Session),
    s.after host budget (steps ++ more) =
      (s.after host budget steps).bind fun next => next.after host budget more
  | [], _ => rfl
  | st :: rest, s => by
      simp only [List.cons_append, after]
      cases s.stepWith host budget st with
      | none => rfl
      | some taken => exact after_append more rest taken.1

/-- Steps in any order, and of these the ones of one execution, lead to sessions that are alike for it. -/
theorem Shadows.after (unfailing : host.Unfailing) : ∀ {steps : List Step} {s t next : Session},
    Shadows id s t → (∀ st ∈ steps, st.given = true) → s.after host budget steps = some next →
      ∃ next', t.after host budget (alone id (s.bindings id).isSome steps) = some next' ∧
        Shadows id next next'
  | [], s, t, _, shadows, _, reached => by
      cases reached
      exact ⟨t, rfl, shadows⟩
  | st :: rest, s, t, next, shadows, given, reached => by
      obtain ⟨first, others⟩ := List.forall_mem_cons.mp given
      rw [Session.after] at reached
      cases taken : s.stepWith host budget st with
      | none =>
          rw [taken] at reached
          cases reached
      | some ended =>
          rw [taken] at reached
          rw [alone]
          split
          · next named =>
              obtain ⟨_, act⟩ := st
              cases named
              obtain ⟨there, middle, answer, otherTaken, alike⟩ := shadows.own unfailing first taken
              obtain ⟨next', further, still⟩ := Shadows.after unfailing alike others reached
              rw [there] at further
              refine ⟨next', ?_, still⟩
              rw [Session.after, otherTaken]
              exact further
          · next unnamed =>
              obtain ⟨same, middle, shared, alike⟩ := shadows.other unfailing unnamed first taken
              obtain ⟨next', further, still⟩ := Shadows.after unfailing alike others reached
              rw [same] at further
              refine ⟨next', ?_, still⟩
              rw [after_append, shared]
              exact further

/-- **Executions of one engine are isolated.** Take steps on an engine in any order, registrations, scripts
that are compiled and run, definitions, look-ups and writes to copies that were handed out, in any
executions, and then a step that names one execution. The functions may do anything but make writing fail.
Suppose that of the steps before only its own are taken, once the functions are registered that were
registered before it was made. Then the execution has the same bindings, and the step has the same answer,
output included, and leaves the same bindings; and if it has no answer in the one case, because it spends
the budget, it has none in the other. -/
theorem step_isolated {host : Host} (unfailing : host.Unfailing) {budget : Nat} {engine : Engine}
    {before : List Step} {st : Step} {id : Text} {s : Session}
    (given : ∀ a ∈ st :: before, a.given = true)
    (reached : (start engine none).after host budget before = some s)
    (named : st.execution = some id) :
    ∃ t, (start engine none).after host budget (alone id false before) = some t ∧
      t.bindings id = s.bindings id ∧
      (t.stepWith host budget st).map (seen id) = (s.stepWith host budget st).map (seen id) := by
  have separated := start_separated engine none
  have alike : Shadows id (start engine none) (start engine none) :=
    ⟨rfl, rfl, fun _ => rfl, separated, separated, rfl, rfl⟩
  obtain ⟨last, earlier⟩ := List.forall_mem_cons.mp given
  obtain ⟨t, otherReached, shadows⟩ := alike.after unfailing earlier reached
  obtain ⟨_, act⟩ := st
  cases named
  exact ⟨t, otherReached, shadows.bindings, shadows.step_seen unfailing budget last⟩

def Answer.output : Answer → Text
  | .ran _ _ output => output
  | _ => []

/-- The first function that is registered counts its calls in the execution that calls it, and displays
the count. The one after it fails. -/
def tallying : Procedures := fun f args =>
  match f.id with
  | 1 => .look fun env =>
      let count : Value := .int (((env.get? (utf8 "calls")).getD .null).toInt + 1)
      .define (utf8 "calls") count (.write count.line fun _ => .give count)
  | 2 => .fail (.plain (utf8 "replaced"))
  | _ => f.action.procedure args

/-- Two executions whose steps alternate. A function is registered before both are made, and another under
its name after that; a copy of the bindings of the first execution is handed out and emptied. -/
def alternating : List Step :=
  [⟨none, .register (utf8 "f") .first⟩,
    ⟨some (utf8 "b"), .define (utf8 "calls") (.value (.int 70))⟩,
    ⟨none, .compile (utf8 "p") (utf8 "f() x = f()")⟩,
    ⟨some (utf8 "a"), .bindings⟩,
    ⟨none, .overwrite 0 .empty⟩,
    ⟨none, .register (utf8 "f") .first⟩,
    ⟨some (utf8 "b"), .run (utf8 "p")⟩,
    ⟨some (utf8 "b"), .editCopies (utf8 "x")⟩]

/-- The step that runs the script in the first execution, and what it writes and binds. -/
theorem step_isolated_alternating :
    ∃ (s t next : Session) (answer : Answer),
      (start .initial none).after (tallying.toHost 3) 3 alternating = some s ∧
      (start .initial none).after (tallying.toHost 3) 3
        [⟨none, .register (utf8 "f") .first⟩,
          ⟨none, .compile (utf8 "p") (utf8 "f() x = f()")⟩,
          ⟨some (utf8 "a"), .bindings⟩] = some t ∧
      s.stepWith (tallying.toHost 3) 3 ⟨some (utf8 "a"), .run (utf8 "p")⟩ = some (next, answer) ∧
      answer.output = utf8 "1\n2\n" ∧
      ((next.bindings (utf8 "a")).bind fun env => (env.get? (utf8 "x")).map Value.render) =
        some (utf8 "2") ∧
      ((next.bindings (utf8 "b")).bind fun env => (env.get? (utf8 "x")).map Value.render) =
        some (utf8 "72") ∧
      (t.stepWith (tallying.toHost 3) 3 ⟨some (utf8 "a"), .run (utf8 "p")⟩).map (seen (utf8 "a")) =
        some (seen (utf8 "a") (next, answer)) := by
  have computed : (((start .initial none).after (tallying.toHost 3) 3 alternating).any fun s =>
      (s.stepWith (tallying.toHost 3) 3 ⟨some (utf8 "a"), .run (utf8 "p")⟩).any fun ended =>
        decide (ended.2.output = utf8 "1\n2\n" ∧
          ((ended.1.bindings (utf8 "a")).bind fun env =>
            (env.get? (utf8 "x")).map Value.render) = some (utf8 "2") ∧
          ((ended.1.bindings (utf8 "b")).bind fun env =>
            (env.get? (utf8 "x")).map Value.render) = some (utf8 "72"))) = true := by decide +kernel
  obtain ⟨s, reached, checked⟩ := (Option.any_eq_true _ _).mp computed
  obtain ⟨⟨next, answer⟩, taken, shown⟩ := (Option.any_eq_true _ _).mp checked
  obtain ⟨output, bound, otherBound⟩ := of_decide_eq_true shown
  have named : Step.execution ⟨some (utf8 "a"), .run (utf8 "p")⟩ = some (utf8 "a") := rfl
  obtain ⟨t, otherReached, -, same⟩ :=
    step_isolated (tallying.toHost_unfailing 3) (by decide) reached named
  rw [taken] at same
  exact ⟨s, t, next, answer, reached, otherReached, taken, output, bound, otherBound, same⟩

end Session

end LoopScript
