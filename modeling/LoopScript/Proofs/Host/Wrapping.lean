/-
# LoopScript.Proofs.Host.Wrapping — the kind of an error survives wrapping

A failure is a message, a sentinel, a fault or a run-time error, its base, behind any number of messages
that it has been wrapped in. To place it at a call means to look for its kind in it, first for a fault and
then for a run-time error. There is one base, so whichever of the two is found is the base, and the kind is
that of the base (`kind_behind`).

Placed, a failure starts anew: the next function that wraps it wraps a run-time error, whose base is that
error. So the depth of the wrapping and the depth of calls and runs go together. `Surfaces` follows an
error outwards, through functions that hand it on, wrapped or not, and through scripts that call these
functions. Each step keeps the kind, and a script that is reached ends in an error (`Surfaces.fails`).

What a sentinel matches goes by the kind alone once a script has failed. That need not be what it matches of
the base: a fault is matched by none before it has been placed, and a sentinel by itself, though it has no
kind that could be asked for (`matched_changes`).
-/
import LoopScript.Proofs.Host.Nesting

namespace LoopScript

set_option autoImplicit false

namespace Failure

inductive Base where
  | plain (message : Text)
  | sentinel (s : Sentinel)
  | fault (f : Fault)
  | runtime (e : RuntimeError)

/-- The kind of a base. Plain messages, and the sentinels among them, have no kind of their own. -/
def Base.kind : Base → ErrorKind
  | .plain _ => .other
  | .sentinel _ => .other
  | .fault f => f.kind
  | .runtime e => e.kind

/-- A base as a failure that wraps nothing. -/
def Base.failure : Base → Failure
  | .plain message => .plain message
  | .sentinel s => .sentinel s
  | .fault f => .fault f
  | .runtime e => .runtime e

/-- A failure wrapped in messages, the outermost first. -/
def behind (messages : List Text) (inner : Failure) : Failure := messages.foldr .wrapped inner

/-! ## The kind of a failure -/

theorem Base.kind_failure (base : Base) : base.failure.kind = base.kind := by
  cases base <;> rfl

/-- Neither of the two searches stops at a message that wraps a failure. -/
theorem kind_wrapped (message : Text) (inner : Failure) : (wrapped message inner).kind = inner.kind := rfl

theorem kind_behind (messages : List Text) (inner : Failure) :
    (inner.behind messages).kind = inner.kind := by
  induction messages with
  | nil => rfl
  | cons message rest ih => exact (kind_wrapped message _).trans ih

/-- Placed at a call, a failure has the kind it had. -/
theorem kind_place (pos : Position) (frame : Text) (failure : Failure) :
    (failure.place pos frame).kind = failure.kind := by
  cases failure <;> rfl

/-- A failure that is not a run-time error itself is placed at the call, with its whole message. -/
theorem place_of_ne_runtime {failure : Failure} (other : ∀ e, failure ≠ .runtime e) (pos : Position)
    (frame : Text) :
    (failure.place pos frame).pos = pos ∧ (failure.place pos frame).frame = frame ∧
      (failure.place pos frame).detail = failure.message := by
  cases failure with
  | runtime e => exact absurd rfl (other e)
  | plain | sentinel | fault | wrapped => exact ⟨rfl, rfl, rfl⟩

/-- Only a run-time error that is wrapped in nothing is a run-time error itself. -/
theorem behind_eq_runtime {base : Base} {messages : List Text} {e : RuntimeError}
    (same : base.failure.behind messages = .runtime e) : base = .runtime e ∧ messages = [] := by
  cases messages with
  | nil =>
      cases base <;> cases same
      exact ⟨rfl, rfl⟩
  | cons message rest => cases same

end Failure

/-! ## What is matched -/

theorem RuntimeError.is_iff {e : RuntimeError} {s : Sentinel} : e.is s = true ↔ e.kind = s.kind := by
  rw [is, beq_iff_eq]

theorem Sentinel.kind_ne_other (s : Sentinel) : s.kind ≠ .other := by
  cases s with
  | name => exact (by decide : ErrorKind.name ≠ .other)
  | type => exact (by decide : ErrorKind.type ≠ .other)
  | unsupported => exact (by decide : ErrorKind.unsupported ≠ .other)

namespace Failure

/-- A message that wraps a failure does not hide it from a sentinel. -/
theorem is_behind (messages : List Text) (inner : Failure) (s : Sentinel) :
    (inner.behind messages).is s = inner.is s := by
  induction messages with
  | nil => rfl
  | cons message rest ih => exact ih

/-- A message and a run-time error are matched by what their kind is matched by. -/
theorem Base.is_iff {base : Base} (noSentinel : ∀ s, base ≠ .sentinel s) (noFault : ∀ f, base ≠ .fault f)
    (s : Sentinel) : base.failure.is s = true ↔ base.kind = s.kind := by
  cases base with
  | plain message => exact ⟨fun matched => absurd matched Bool.false_ne_true, fun same =>
      absurd same.symm s.kind_ne_other⟩
  | sentinel t => exact absurd rfl (noSentinel t)
  | fault f => exact absurd rfl (noFault f)
  | runtime e => exact RuntimeError.is_iff

end Failure

/-! ## Outwards -/

namespace Moment

variable {procedures : Procedures} {base : Failure.Base} {m m' : Moment}

/-- An error with this base comes out of the activity: the activity fails with it, wrapped or not, or it
begins another one out of which the error comes. In the second case it is the run of a script, or it fails
with what the other one fails with, wrapped or not. -/
inductive Surfaces (procedures : Procedures) (base : Failure.Base) : Moment → Prop where
  | arises {m : Moment} {messages : List Text} {y : Execution} :
      m.outcome procedures = .error (base.failure.behind messages) y → Surfaces procedures base m
  | ofRun {m m' : Moment} {script : Script} :
      Surfaces procedures base m' → m.Begins procedures m' → m.activity = .run script →
      Surfaces procedures base m
  | ofCall {m m' : Moment} {messages : List Text} {failure : Failure} {y z : Execution} :
      Surfaces procedures base m' → m.Begins procedures m' →
      m'.outcome procedures = .error failure y →
      m.outcome procedures = .error (failure.behind messages) z → Surfaces procedures base m

/-- One step outwards: a script that calls a function that fails ends in an error of the same kind. -/
theorem Begins.fails_of_run {script : Script} {failure : Failure} {y : Execution}
    (begins : m.Begins procedures m') (isRun : m.activity = .run script)
    (failed : m'.outcome procedures = .error failure y) :
    ∃ e z, m.outcome procedures = .error (.runtime e) z ∧ e.kind = failure.kind := by
  cases begins with
  | invokes evaluates valued found =>
      have ended := evaluates.call_fails valued found (Outcome.ending_eq_error.mp failed)
      exact ⟨_, _, ended, failure.kind_place _ _⟩
  | calls | runs => cases isRun

/-- An activity out of which an error comes fails with a failure of the kind of its base. -/
theorem Surfaces.fails (surfaces : Surfaces procedures base m) :
    ∃ failure y, m.outcome procedures = .error failure y ∧ failure.kind = base.kind := by
  induction surfaces with
  | arises failed =>
      refine ⟨_, _, failed, ?_⟩
      rw [Failure.kind_behind, base.kind_failure]
  | ofRun _ begins isRun ih =>
      obtain ⟨failure, y, failed, kind⟩ := ih
      obtain ⟨e, z, ended, same⟩ := begins.fails_of_run isRun failed
      exact ⟨.runtime e, z, ended, same.trans kind⟩
  | ofCall _ _ failed ended ih =>
      obtain ⟨failure, y, failed', kind⟩ := ih
      rw [failed] at failed'
      cases failed'
      exact ⟨_, _, ended, (Failure.kind_behind _ _).trans kind⟩

/-- A script out of whose run an error comes ends in an error of the kind of its base. -/
theorem Surfaces.ends {budget : Nat} {script : Script} {x : Execution}
    (surfaces : Surfaces procedures base ⟨budget, .run script, x⟩) :
    ∃ e y, script.runWith (procedures.toHost budget) budget x = .error e y ∧ e.kind = base.kind := by
  obtain ⟨failure, y, failed, kind⟩ := surfaces.fails
  obtain ⟨e, rfl, ran⟩ := outcome_run_eq_error.mp failed
  exact ⟨e, y, ran, kind⟩

/-- **The kind of an error survives any depth of wrapping.** Let a function fail with a base behind
messages. If that is a run-time error behind none, the call fails with this very error; otherwise the call
fails with an error at its own place, whose wording is the whole message and whose kind is that of the
base. Hence a script out of whose run an error comes, through any number of calls and runs that wrap it or
not, ends in an error of the kind of the innermost base. A sentinel matches that error if it asks for this
kind, and so it matches what it matches of the base, unless the base is a fault or a sentinel itself. -/
theorem kind_survives (procedures : Procedures) (base : Failure.Base) :
    (∀ (host : Host) callee args pos values f messages x y z,
      Eval.exprs host args x = .ok values y → y.env.lookupFunction callee = .ok f →
      host f values y = .error (base.failure.behind messages) z →
      (∀ e, base = .runtime e → messages = [] →
        Eval.expr host (.call callee args pos) x = .error e z) ∧
      ((∀ e, base = .runtime e → messages ≠ []) →
        ∃ e, Eval.expr host (.call callee args pos) x = .error e z ∧ e.pos = pos ∧
          e.detail = (base.failure.behind messages).message ∧ e.kind = base.kind)) ∧
    ∀ budget script x, Surfaces procedures base ⟨budget, .run script, x⟩ →
      ∃ e y, script.runWith (procedures.toHost budget) budget x = .error e y ∧ e.kind = base.kind ∧
        (∀ s : Sentinel, e.is s = true ↔ base.kind = s.kind) ∧
        ((∀ s, base ≠ .sentinel s) → (∀ f, base ≠ .fault f) →
          ∀ (messages : List Text) (s : Sentinel), e.is s = (base.failure.behind messages).is s) := by
  constructor
  · intro host callee args pos values f messages x y z valued found failed
    have called := Eval.expr_call_of_failure valued found failed pos
    constructor
    · rintro e rfl rfl
      exact called
    · intro wraps
      have other : ∀ e, base.failure.behind messages ≠ .runtime e := by
        intro e same
        obtain ⟨isError, bare⟩ := Failure.behind_eq_runtime same
        exact wraps e isError bare
      obtain ⟨place, -, detail⟩ := Failure.place_of_ne_runtime other pos (z.frameAt pos)
      refine ⟨_, called, place, detail, ?_⟩
      rw [Failure.kind_place, Failure.kind_behind, base.kind_failure]
  · intro budget script x surfaces
    obtain ⟨e, y, ran, same⟩ := surfaces.ends
    have matched : ∀ s : Sentinel, e.is s = true ↔ base.kind = s.kind := by
      intro s
      rw [RuntimeError.is_iff, same]
    refine ⟨e, y, ran, same, matched, fun noSentinel noFault messages s => ?_⟩
    rw [Failure.is_behind]
    exact Bool.eq_iff_iff.mpr ((matched s).trans (Failure.Base.is_iff noSentinel noFault s).symm)

/-- A text that looks up a name that is not bound, by a function that wraps the fault. -/
def inquiry : Text := utf8 "WRAPLOOKUP(\"nobody\")"

/-- A script that runs the text in `u`, by a function that wraps the error. -/
def inquirer : Script :=
  ⟨utf8 "WRAPEVAL(u)", [.call (utf8 "WRAPEVAL") [.name (utf8 "u") ⟨1, 10⟩] ⟨1, 1⟩]⟩

def finder : Function := ⟨1, utf8 "WRAPLOOKUP", .wrapLookup⟩

def runner : Function := ⟨2, utf8 "WRAPEVAL", .wrapEval⟩

/-- What looking the name up comes to in the first place. -/
def missing : Failure.Base := .fault (.unboundVariable (utf8 "nobody"))

/-- An execution with the two functions, and with the text in `u`. -/
def office : Execution :=
  (((Engine.initial.register (utf8 "WRAPLOOKUP") .wrapLookup).register (utf8 "WRAPEVAL")
    .wrapEval).newExecution (.empty none)).define (utf8 "u") (.text inquiry)

/-- The callee, the arguments and the place of a call that stands alone. -/
def onlyCall? : Program → Option (Text × List Expr × Position)
  | [.call callee args pos] => some (callee, args, pos)
  | _ => none

theorem onlyCall?_eq_some {program : Program} {callee : Text} {args : List Expr} {pos : Position}
    (calls : onlyCall? program = some (callee, args, pos)) : program = [.call callee args pos] := by
  unfold onlyCall? at calls
  split at calls
  · cases calls
    rfl
  · cases calls

/-- The text is a call of the function that looks names up, which fails with the fault in a message. -/
theorem compile_inquiry : ∃ (inner : Script) (callee : Text) (args : List Expr) (pos : Position)
    (values : List Value) (y z : Execution),
      Script.compile inquiry = .ok inner ∧ inner.program = [.call callee args pos] ∧
      Eval.exprs (Procedures.standard.toHost 2) args { office with source := some inquiry } =
        .ok values y ∧ y.env.lookupFunction callee = .ok finder ∧
      Procedures.standard.toHost 2 finder values y =
        .error (.labelled (utf8 "wrapped") missing.failure) z := by
  have computed : ((Script.compile inquiry).toOption.any fun inner =>
      (onlyCall? inner.program).any fun parts =>
        (Eval.exprs (Procedures.standard.toHost 2) parts.2.1
            { office with source := some inquiry }).completed.any fun valued =>
          (Procedures.standard.toHost 2 finder valued.1 valued.2).failed.any fun ended =>
            decide (valued.2.env.lookupFunction parts.1 = .ok finder ∧
              ended.1 = .labelled (utf8 "wrapped") missing.failure)) = true := by decide +kernel
  obtain ⟨inner, read, checked⟩ := (Option.any_eq_true _ _).mp computed
  obtain ⟨⟨callee, args, pos⟩, calls, checked⟩ := (Option.any_eq_true _ _).mp checked
  obtain ⟨⟨values, y⟩, valued, checked⟩ := (Option.any_eq_true _ _).mp checked
  obtain ⟨⟨failure, z⟩, ended, checked⟩ := (Option.any_eq_true _ _).mp checked
  obtain ⟨found, rfl⟩ := of_decide_eq_true checked
  exact ⟨inner, callee, args, pos, values, y, z, Script.toOption_compile.mp read,
    onlyCall?_eq_some calls, Outcome.completed_eq_some.mp valued, found,
    Outcome.failed_eq_some.mp ended⟩

/-- The fault is wrapped by the function that meets it and placed by the inner script, and this error is
wrapped by the function that runs the script and placed by the outer one. -/
theorem surfaces_inquirer : Surfaces .standard missing ⟨3, .run inquirer, office⟩ := by
  obtain ⟨inner, callee, args, pos, values, y, z, compiled, shape, valued, found, failed⟩ :=
    compile_inquiry
  obtain ⟨-, same⟩ := Script.compile_eq_ok.mp compiled
  have does : Procedures.standard runner [.text inquiry] =
      .running (.labelled (utf8 "wrapped")) inquiry .null := rfl
  have evaluates : Evaluates .standard ⟨2, .run inner, { office with source := some inquirer.source }⟩
      inner (.expr (.call callee args pos)) { office with source := some inquiry } := by
    refine ⟨rfl, ?_⟩
    rw [shape, same]
    exact .inner (.inner .itself .head) .call
  have looks := Begins.invokes evaluates valued found
  have calls : Begins .standard ⟨3, .run inquirer, office⟩
      ⟨3, .call runner [.text inquiry], { office with source := some inquirer.source }⟩ :=
    .invokes ⟨rfl, .inner (.inner .itself .head) .call⟩ rfl rfl
  have met : outcome .standard ⟨2, .call finder values, y⟩ =
      .error (missing.failure.behind [utf8 "wrapped" ++ utf8 ": " ++ missing.failure.message]) z :=
    Outcome.ending_eq_error.mpr failed
  obtain ⟨e, w, ended, -⟩ := looks.fails_of_run rfl met
  have handed : outcome .standard ⟨3, .call runner [.text inquiry], _⟩ =
      .error (Failure.behind [utf8 "wrapped" ++ utf8 ": " ++ e.message] (.runtime e)) w :=
    outcome_of_running does compiled ended
  exact .ofRun (.ofCall (.ofRun (.arises met) looks rfl) (begins_of_running does compiled) ended handed)
    calls rfl

/-- Wrapped twice, the error is still about a name. -/
theorem kind_survives_twice :
    ∃ e y, inquirer.run 3 office = .error e y ∧ e.is .name = true ∧ e.is .type = false := by
  obtain ⟨e, x, ran, -, matched, -⟩ :=
    (kind_survives .standard missing).2 3 inquirer office surfaces_inquirer
  have notType : missing.kind ≠ Sentinel.type.kind := (by decide : ErrorKind.name ≠ .type)
  refine ⟨e, x, ?_, (matched .name).mpr rfl, ?_⟩
  · rw [Script.run, host_eq_toHost]
    exact ran
  · exact Bool.eq_false_iff.mpr fun isType => notType ((matched .type).mp isType)

/-- Functions that fail with a sentinel behind a label. -/
def complaining : Procedures := fun _ _ => .fail (.labelled (utf8 "f") (.sentinel .type))

def caller : Script := ⟨utf8 "f()", [.call (utf8 "f") [] ⟨1, 1⟩]⟩

def desk : Execution := (Engine.initial.register (utf8 "f") .first).newExecution (.empty none)

theorem surfaces_caller : Surfaces complaining (.sentinel .type) ⟨1, .run caller, desk⟩ := by
  have calls : Begins complaining ⟨1, .run caller, desk⟩
      ⟨1, .call ⟨1, utf8 "f", .first⟩ [], { desk with source := some caller.source }⟩ :=
    .invokes ⟨rfl, .inner (.inner .itself .head) .call⟩ rfl rfl
  have failed : outcome complaining
      ⟨1, .call ⟨1, utf8 "f", .first⟩ [], { desk with source := some caller.source }⟩ =
        .error (Failure.behind [utf8 "f" ++ utf8 ": " ++ utf8 "TypeError"] (.sentinel .type))
          { desk with source := some caller.source } := rfl
  exact .ofRun (.arises failed) calls rfl

/-- What a sentinel matches of the base it need not match of the error that the script ends in, and the
other way round: a sentinel that a function wraps is lost, and a fault is matched only once it is placed. -/
theorem matched_changes :
    (∃ e y, Surfaces complaining (.sentinel .type) ⟨1, .run caller, desk⟩ ∧
      caller.runWith (complaining.toHost 1) 1 desk = .error e y ∧
      (Failure.sentinel .type).is .type = true ∧ e.is .type = false) ∧
    ∃ e y, Surfaces .standard missing ⟨3, .run inquirer, office⟩ ∧
      inquirer.runWith (Procedures.standard.toHost 3) 3 office = .error e y ∧
      missing.failure.is .name = false ∧ e.is .name = true := by
  constructor
  · obtain ⟨e, y, ran, kind⟩ := surfaces_caller.ends
    refine ⟨e, y, surfaces_caller, ran, rfl, Bool.eq_false_iff.mpr fun matched => ?_⟩
    exact Sentinel.type.kind_ne_other ((RuntimeError.is_iff.mp matched).symm.trans kind)
  · obtain ⟨e, y, ran, kind⟩ := surfaces_inquirer.ends
    exact ⟨e, y, surfaces_inquirer, ran, rfl, RuntimeError.is_iff.mpr kind⟩

end Moment

end LoopScript
