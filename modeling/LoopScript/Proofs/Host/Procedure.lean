/-
# LoopScript.Proofs.Host.Procedure — whatever a function of the host may do

A function of the host sees the execution that calls it through a few operations: it looks at the
bindings, binds names, writes, calls functions, and runs scripts. In the end it gives a value or fails. A
`Procedure` is a tree of such steps, in which each step is chosen by what the ones before came to: so it
can run any number of scripts, go on after one of them has failed, and wrap failures or not.

`Procedures.toHost` makes a host of procedures, one for each function and its arguments. What is proved
for these hosts holds for the functions of `LoopScript.Host`, which are such procedures
(`host_eq_toHost`).

`Steps` takes a procedure forward by one operation, and `Comes` by any number of them. Since no operation
replaces the running script but to run another, and running that one puts the first back, the running
script is the same at every step and after the last (`Comes.source`, `toHost_source`).
-/
import LoopScript.Proofs.Eval.Steady

namespace LoopScript

set_option autoImplicit false

/-- What a function of the host does: one step after the other, and at the end a value or a failure.
A write tells what it was refused with, if it was, a call what it came to, and a run of a script the error
it ended in, if any. -/
inductive Procedure where
  | give (v : Value)
  | fail (failure : Failure)
  | look (next : Env → Procedure)
  | define (name : Text) (v : Value) (next : Procedure)
  | write (t : Text) (next : Option Failure → Procedure)
  | call (f : Function) (args : List Value) (next : Except Failure Value → Procedure)
  | run (script : Script) (next : Option RuntimeError → Procedure)

namespace Procedure

/-- Carry a procedure out, calling functions of `host` and running scripts with a budget. -/
def perform (host : Host) (budget : Nat) : Procedure → Run Failure Value
  | .give v => Run.pure v
  | .fail failure => Run.fail failure
  | .look next => fun x => (next x.env).perform host budget x
  | .define name v next => fun x => next.perform host budget (x.define name v)
  | .write t next => fun x =>
      match x.sink.write t with
      | .ok sink => (next none).perform host budget { x with sink := sink }
      | .error refusal => (next (some refusal)).perform host budget x
  | .call f args next => fun x =>
      match host f args x with
      | .ok v y => (next (.ok v)).perform host budget y
      | .error failure y => (next (.error failure)).perform host budget y
      | .exhausted => .exhausted
  | .run script next => fun x =>
      match script.runWith host budget x with
      | .ok _ y => (next none).perform host budget y
      | .error e y => (next (some e)).perform host budget y
      | .exhausted => .exhausted

end Procedure

/-- What each function of a host does with its arguments. -/
abbrev Procedures := Function → List Value → Procedure

/-- The host of the given procedures. The budget bounds how deeply functions call functions and scripts
run scripts. -/
def Procedures.toHost (procedures : Procedures) : Nat → Host
  | 0 => fun _ _ _ => .exhausted
  | budget + 1 => fun f args => (procedures f args).perform (procedures.toHost budget) budget

/-! ## The functions of the language as procedures -/

namespace Procedure

/-- Write every value on a line of its own. -/
def displaying : List Value → Procedure
  | [] => .give .null
  | v :: rest => .write (v.render ++ [Text.newline]) fun
      | none => displaying rest
      | some refusal => .fail (Host.refused refusal)

/-- Look a variable up, and hand a fault on as `pass` says. -/
def looking (pass : Failure → Failure) (name : Text) : Procedure :=
  .look fun env =>
    match env.lookup name with
    | .ok v => .give v
    | .error fault => .fail (pass (.fault fault))

/-- Run a text as a script, and hand an error on as `pass` says. -/
def running (pass : Failure → Failure) (source : Text) (result : Value) : Procedure :=
  match Script.compile source with
  | .error ds => .fail (pass (.plain (Diagnostic.renderAll source ds)))
  | .ok script => .run script fun
      | none => .give result
      | some e => .fail (pass (.runtime e))

/-- Call the function a name is bound to, and hand on what it comes to. -/
def calling (name : Text) (args : List Value) : Procedure :=
  .look fun env =>
    match env.lookupFunction name with
    | .ok g => .call g args fun
        | .ok v => .give v
        | .error failure => .fail failure
    | .error fault => .fail (.fault fault)

end Procedure

def Action.procedure (action : Action) (args : List Value) : Procedure :=
  let a := Host.arg args 0
  let b := Host.arg args 1
  match action with
  | .display => .displaying args
  | .count => .give (.int (Int64.ofNat args.length))
  | .first => .give a
  | .kind => .give (.text a.kind.name)
  | .inspect => .give (.text a.inspect)
  | .equal => .give (.bool (a.equal b))
  | .fail => .fail (.plain a.render)
  | .define => .define a.render b (.give .null)
  | .lookup => .looking id a.render
  | .wrapLookup => .looking (.labelled (utf8 "wrapped")) a.render
  | .eval => .running id a.render b
  | .wrapEval => .running (.labelled (utf8 "wrapped")) a.render b
  | .call => .calling a.render (args.drop 1)

def Procedures.standard : Procedures := fun f args => f.action.procedure args

namespace Procedure

variable {host : Host} {budget : Nat}

theorem perform_displaying : ∀ args : List Value,
    (displaying args).perform host budget = Host.display args
  | [] => rfl
  | v :: rest => by
      funext x
      simp only [displaying, perform, Host.display]
      cases x.sink.write (v.render ++ [Text.newline]) with
      | ok sink => exact congrFun (perform_displaying rest) _
      | error refusal => rfl

theorem perform_looking (v : Value) :
    (looking id v.render).perform host budget = Host.lookupNamed v := by
  funext x
  simp only [looking, perform, Host.lookupNamed]
  cases x.env.lookup v.render <;> rfl

theorem perform_looking_labelled (v : Value) :
    (looking (.labelled (utf8 "wrapped")) v.render).perform host budget =
      Host.labelled (Host.lookupNamed v) := by
  funext x
  simp only [looking, perform, Host.labelled, Host.lookupNamed]
  cases x.env.lookup v.render <;> rfl

theorem perform_running (source : Text) (result : Value) :
    (running id source result).perform host budget =
      Host.evalNamed (Script.runWith host budget) source result := by
  funext x
  simp only [running, Host.evalNamed]
  cases Script.compile source with
  | error ds => rfl
  | ok script =>
      simp only [perform]
      cases script.runWith host budget x <;> rfl

theorem perform_running_labelled (source : Text) (result : Value) :
    (running (.labelled (utf8 "wrapped")) source result).perform host budget =
      Host.labelled (Host.evalNamed (Script.runWith host budget) source result) := by
  funext x
  simp only [running, Host.labelled, Host.evalNamed]
  cases Script.compile source with
  | error ds => rfl
  | ok script =>
      simp only [perform]
      cases script.runWith host budget x <;> rfl

/-- Running a text that compiles is running the script, and handing its error on. -/
theorem running_eq_run {source : Text} {script : Script} (pass : Failure → Failure) (result : Value)
    (compiled : Script.compile source = .ok script) :
    ∃ next, running pass source result = .run script next ∧
      ∀ e, next (some e) = .fail (pass (.runtime e)) := by
  rw [running, compiled]
  exact ⟨_, rfl, fun _ => rfl⟩

theorem perform_calling (name : Text) (args : List Value) (x : Execution) :
    (calling name args).perform host budget x =
      match x.env.lookupFunction name with
      | .ok g => host g args x
      | .error fault => .error (.fault fault) x := by
  simp only [calling, perform]
  cases x.env.lookupFunction name with
  | ok g =>
      simp only [perform]
      cases host g args x <;> rfl
  | error fault => rfl

end Procedure

/-- The functions of the language do what their procedures say. -/
theorem host_eq_toHost : ∀ budget : Nat, host budget = Procedures.standard.toHost budget
  | 0 => rfl
  | budget + 1 => by
      funext f args
      have inner := host_eq_toHost budget
      unfold host
      rw [inner]
      simp only [Procedures.toHost, Procedures.standard, Action.procedure]
      cases f.action with
      | display => exact (Procedure.perform_displaying args).symm
      | lookup => exact (Procedure.perform_looking _).symm
      | wrapLookup => exact (Procedure.perform_looking_labelled _).symm
      | eval => exact (Procedure.perform_running _ _).symm
      | wrapEval => exact (Procedure.perform_running_labelled _ _).symm
      | call =>
          funext x
          exact (Procedure.perform_calling _ _ x).symm
      | count | first | kind | inspect | equal | fail | define => rfl

/-! ## Step by step -/

namespace Procedure

/-- One step: what is left of a procedure after it, and the execution reached. -/
inductive Steps (host : Host) (budget : Nat) :
    Procedure → Execution → Procedure → Execution → Prop where
  | look {next : Env → Procedure} {x : Execution} : Steps host budget (.look next) x (next x.env) x
  | define {name : Text} {v : Value} {next : Procedure} {x : Execution} :
      Steps host budget (.define name v next) x next (x.define name v)
  | taken {t : Text} {next : Option Failure → Procedure} {x : Execution} {sink : Sink} :
      x.sink.write t = .ok sink →
      Steps host budget (.write t next) x (next none) { x with sink := sink }
  | refused {t : Text} {next : Option Failure → Procedure} {x : Execution} {refusal : Failure} :
      x.sink.write t = .error refusal →
      Steps host budget (.write t next) x (next (some refusal)) x
  | returned {f : Function} {args : List Value} {next : Except Failure Value → Procedure}
      {x y : Execution} {v : Value} :
      host f args x = .ok v y → Steps host budget (.call f args next) x (next (.ok v)) y
  | failed {f : Function} {args : List Value} {next : Except Failure Value → Procedure}
      {x y : Execution} {failure : Failure} :
      host f args x = .error failure y →
      Steps host budget (.call f args next) x (next (.error failure)) y
  | completed {script : Script} {next : Option RuntimeError → Procedure} {x y : Execution} :
      script.runWith host budget x = .ok () y → Steps host budget (.run script next) x (next none) y
  | erred {script : Script} {next : Option RuntimeError → Procedure} {x y : Execution}
      {e : RuntimeError} :
      script.runWith host budget x = .error e y →
      Steps host budget (.run script next) x (next (some e)) y

/-- Begun in `x`, the procedure `p` comes to what is left of it in a later execution. -/
inductive Comes (host : Host) (budget : Nat) (p : Procedure) (x : Execution) :
    Procedure → Execution → Prop where
  | start : Comes host budget p x p x
  | step {q r : Procedure} {y z : Execution} :
      Comes host budget p x q y → Steps host budget q y r z → Comes host budget p x r z

variable {host : Host} {budget : Nat} {p q : Procedure} {x y : Execution}

/-- Carrying a procedure out is taking its steps. -/
theorem Steps.perform_eq (steps : Steps host budget p x q y) :
    p.perform host budget x = q.perform host budget y := by
  cases steps with
  | look | define => rfl
  | taken wrote | refused wrote => simp only [perform, wrote]
  | returned ended | failed ended => simp only [perform, ended]
  | completed ran | erred ran => simp only [perform, ran]

theorem Comes.perform_eq (comes : Comes host budget p x q y) :
    p.perform host budget x = q.perform host budget y := by
  induction comes with
  | start => rfl
  | step _ steps ih => rw [ih, steps.perform_eq]

end Procedure

/-! ## What procedures reach -/

namespace Procedure

variable {P : Execution → Execution → Prop} {host : Host} {budget : Nat}

/-- A procedure reaches what is related to where it begins, if calls and writes do. -/
theorem perform_within (steady : Steady P)
    (writes : ∀ {x : Execution} {t : Text} {sink : Sink},
      x.sink.write t = .ok sink → P x { x with sink := sink })
    (calls : ∀ f args, (host f args).Within P) (p : Procedure) : (p.perform host budget).Within P := by
  induction p with
  | give v => exact Run.pure_within steady v
  | fail failure => exact Run.fail_within steady failure
  | look next ih => exact fun x => ih x.env x
  | define name v next ih =>
      exact fun x y reached => steady.trans (steady.binds x name v) (ih (x.define name v) y reached)
  | write t next ih =>
      intro x y reached
      simp only [perform] at reached
      cases wrote : x.sink.write t with
      | ok sink =>
          rw [wrote] at reached
          exact steady.trans (writes wrote) (ih none { x with sink := sink } y reached)
      | error refusal =>
          rw [wrote] at reached
          exact ih (some refusal) x y reached
  | call f args next ih =>
      intro x y reached
      simp only [perform] at reached
      cases ended : host f args x with
      | ok v z =>
          rw [ended] at reached
          exact steady.trans ((calls f args).of_ok ended) (ih (.ok v) z y reached)
      | error failure z =>
          rw [ended] at reached
          exact steady.trans (calls f args x z (by rw [ended]; rfl)) (ih (.error failure) z y reached)
      | exhausted =>
          rw [ended] at reached
          exact reached.elim
  | run script next ih =>
      intro x y reached
      have runs := Script.runWith_within steady calls budget script
      simp only [perform] at reached
      cases ran : script.runWith host budget x with
      | ok _ z =>
          rw [ran] at reached
          exact steady.trans (runs.of_ok ran) (ih none z y reached)
      | error e z =>
          rw [ran] at reached
          exact steady.trans (runs x z (by rw [ran]; rfl)) (ih (some e) z y reached)
      | exhausted =>
          rw [ran] at reached
          exact reached.elim

end Procedure

/-- A host of procedures reaches what is related to where it is called, if writes do. -/
theorem Procedures.toHost_within {P : Execution → Execution → Prop} (procedures : Procedures)
    (steady : Steady P)
    (writes : ∀ {x : Execution} {t : Text} {sink : Sink},
      x.sink.write t = .ok sink → P x { x with sink := sink }) :
    ∀ (budget : Nat) (f : Function) (args : List Value), (procedures.toHost budget f args).Within P
  | 0, _, _ => fun _ _ => False.elim
  | budget + 1, f, args =>
      Procedure.perform_within steady writes (procedures.toHost_within steady writes budget)
        (procedures f args)

/-! ## The running script -/

def Execution.SameScript (x y : Execution) : Prop := y.source = x.source

/-- Runs leave the running script as they find it. -/
theorem Execution.sameScript_steady : Steady Execution.SameScript where
  refl _ := rfl
  trans first second := second.trans first
  binds _ _ _ := rfl
  writes _ := rfl
  nests _ := rfl

namespace Procedure

variable {host : Host} {budget : Nat} {p q : Procedure} {x y : Execution}
variable (calls : ∀ f args, (host f args).Within Execution.SameScript)
include calls

theorem Steps.source (steps : Steps host budget p x q y) : y.source = x.source := by
  have runs := Script.runWith_within Execution.sameScript_steady calls budget
  cases steps with
  | look | define | taken | refused => rfl
  | returned ended => exact (calls _ _).of_ok ended
  | failed ended => exact calls _ _ x y (by rw [ended]; rfl)
  | completed ran => exact (runs _).of_ok ran
  | erred ran => exact runs _ x y (by rw [ran]; rfl)

theorem Comes.source (comes : Comes host budget p x q y) : y.source = x.source := by
  induction comes with
  | start => rfl
  | step _ steps ih => exact (steps.source calls).trans ih

end Procedure

/-- Functions of the host leave the running script as they find it. -/
theorem Procedures.toHost_source (procedures : Procedures) (budget : Nat) (f : Function)
    (args : List Value) : (procedures.toHost budget f args).Within Execution.SameScript :=
  procedures.toHost_within Execution.sameScript_steady (fun _ => rfl) budget f args

end LoopScript
