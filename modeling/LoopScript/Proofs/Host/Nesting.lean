/-
# LoopScript.Proofs.Host.Nesting — scripts that run scripts

A script calls functions of the host, a function calls others and runs scripts, and those call functions
again, all in one execution. An `Activity` is one of these, a call or a run, and a `Moment` is an activity
with its budget and the execution in which it begins. `Moment.Begins` says which activities one begins in
turn, and `Inside` follows them to any depth, with the scripts that are being run around each, innermost
first.

The script that an execution holds is at every moment the innermost of these, and the same one is held
when the activity is over, however it ends (`Inside.source`, `Moment.source_of_reaches`). Hence an error
that a part of a script raises shows a line of that script, also after other scripts have been run in
between, and an error of a script that a function hands on as it is keeps the line it has.
-/
import LoopScript.Proofs.Eval.Innermost
import LoopScript.Proofs.Host.Procedure

namespace LoopScript

set_option autoImplicit false

/-- A call whose function fails comes to that failure, placed at the call. -/
theorem Eval.expr_call_of_failure {host : Host} {callee : Text} {args : List Expr} {values : List Value}
    {f : Function} {failure : Failure} {x y z : Execution} (valued : exprs host args x = .ok values y)
    (found : y.env.lookupFunction callee = .ok f) (failed : host f values y = .error failure z)
    (pos : Position) :
    expr host (.call callee args pos) x = .error (failure.place pos (z.frameAt pos)) z := by
  rw [expr, Run.bind_of_ok valued, invoke, found]
  simp only [Run.placedAt, failed]
  rfl

/-- A function is carried out, or a script is run. -/
inductive Activity where
  | call (f : Function) (args : List Value)
  | run (script : Script)

/-- The scripts that are being run, innermost first, inside an activity around which `stack` are. -/
def Activity.enter : Activity → List Script → List Script
  | .call _ _, stack => stack
  | .run script, stack => script :: stack

/-- The source an execution should hold where `stack` are being run and `outer` was held before. -/
def currentSource (outer : Option Text) : List Script → Option Text
  | [] => outer
  | script :: _ => some script.source

/-- An activity, the budget it has, and the execution in which it begins. -/
structure Moment where
  budget : Nat
  activity : Activity
  state : Execution

namespace Moment

def outcome (procedures : Procedures) : Moment → Outcome Failure Unit
  | ⟨budget, .call f args, x⟩ => (procedures.toHost budget f args x).ending
  | ⟨budget, .run script, x⟩ =>
      (script.runWith (procedures.toHost budget) budget x).mapError fun _ e => .runtime e

/-- The activity is the run of a script, and a part of the script is begun in `y`. -/
def Evaluates (procedures : Procedures) (m : Moment) (script : Script) (t : Eval.Task)
    (y : Execution) : Prop :=
  m.activity = .run script ∧
    Eval.During (procedures.toHost m.budget) m.budget (.stmts script.program)
      { m.state with source := some script.source } t y

/-- An activity begins another one: a run of a script calls a function, whose arguments have values, and
a function calls another one or runs a script. -/
inductive Begins (procedures : Procedures) : Moment → Moment → Prop where
  | invokes {m : Moment} {script : Script} {callee : Text} {args : List Expr} {pos : Position}
      {values : List Value} {f : Function} {y z : Execution} :
      m.Evaluates procedures script (.expr (.call callee args pos)) y →
      Eval.exprs (procedures.toHost m.budget) args y = .ok values z →
      z.env.lookupFunction callee = .ok f →
      Begins procedures m ⟨m.budget, .call f values, z⟩
  | calls {budget : Nat} {f g : Function} {args values : List Value}
      {next : Except Failure Value → Procedure} {x y : Execution} :
      (procedures f args).Comes (procedures.toHost budget) budget x (.call g values next) y →
      Begins procedures ⟨budget + 1, .call f args, x⟩ ⟨budget, .call g values, y⟩
  | runs {budget : Nat} {f : Function} {args : List Value} {script : Script}
      {next : Option RuntimeError → Procedure} {x y : Execution} :
      (procedures f args).Comes (procedures.toHost budget) budget x (.run script next) y →
      Begins procedures ⟨budget + 1, .call f args, x⟩ ⟨budget, .run script, y⟩

/-- Inside the activity `start` another one begins, while the scripts of a stack are being run. -/
inductive Inside (procedures : Procedures) (start : Moment) : List Script → Moment → Prop where
  | itself : Inside procedures start [] start
  | inner {stack : List Script} {m m' : Moment} :
      Inside procedures start stack m → m.Begins procedures m' →
      Inside procedures start (m.activity.enter stack) m'

variable {procedures : Procedures} {m m' start : Moment} {stack : List Script} {script : Script}
variable {t : Eval.Task} {y z : Execution}

/-! ## The running script -/

/-- While a script runs, the execution holds its source. -/
theorem Evaluates.source (evaluates : m.Evaluates procedures script t y) :
    y.source = some script.source :=
  evaluates.2.within Execution.sameScript_steady (procedures.toHost_source m.budget)

/-- When an activity is over, the execution holds the script it held before. -/
theorem source_of_reaches (reached : (m.outcome procedures).Reaches y) :
    y.source = m.state.source := by
  have calls := procedures.toHost_source m.budget
  obtain ⟨budget, activity, x⟩ := m
  cases activity with
  | call f args => exact calls f args x y (Outcome.reaches_ending.mp reached)
  | run script =>
      have runs := Script.runWith_within Execution.sameScript_steady calls budget script
      exact runs x y (Outcome.reaches_mapError.mp reached)

/-- One step inwards: the activity that is begun finds the source of the innermost script. -/
theorem Begins.source {outer : Option Text} (begins : m.Begins procedures m')
    (held : m.state.source = currentSource outer stack) :
    m'.state.source = currentSource outer (m.activity.enter stack) := by
  have calls := procedures.toHost_source
  cases begins with
  | invokes evaluates valued found =>
      rw [evaluates.1]
      refine Eq.trans ?_ evaluates.source
      exact (Eval.exprs_within Execution.sameScript_steady (calls m.budget) _).of_ok valued
  | calls comes => exact (comes.source (calls _)).trans held
  | runs comes => exact (comes.source (calls _)).trans held

/-- At every depth the execution holds the source of the innermost script that is being run. -/
theorem Inside.source (inside : Inside procedures start stack m) :
    m.state.source = currentSource start.state.source stack := by
  induction inside with
  | itself => rfl
  | inner _ begins ih => exact begins.source ih

/-! ## Errors -/

theorem outcome_run_eq_error {budget : Nat} {x : Execution} {failure : Failure} :
    outcome procedures ⟨budget, .run script, x⟩ = .error failure y ↔
      ∃ e, failure = .runtime e ∧ script.runWith (procedures.toHost budget) budget x = .error e y := by
  simp only [outcome]
  cases script.runWith (procedures.toHost budget) budget x with
  | ok _ w | exhausted => simp [Outcome.mapError]
  | error e w =>
      constructor
      · rintro ⟨⟩
        exact ⟨e, rfl, rfl⟩
      · rintro ⟨_, rfl, ⟨⟩⟩
        rfl

/-- A run that ends in an error does so because the statements of its script do. -/
theorem stmts_of_outcome {e : RuntimeError} (isRun : m.activity = .run script)
    (failed : m.outcome procedures = .error (.runtime e) z) :
    ∃ y, (Eval.Task.stmts script.program).outcome (procedures.toHost m.budget) m.budget
      { m.state with source := some script.source } = .error e y := by
  obtain ⟨budget, activity, x⟩ := m
  cases isRun
  obtain ⟨_, ⟨⟩, ran⟩ := outcome_run_eq_error.mp failed
  obtain ⟨y, ended, -⟩ := Script.runWith_eq_error ran
  exact ⟨y, Outcome.ending_eq_error.mpr ended⟩

/-- A run ends in the error that a part of its script fails with, and that part fails while the source of
the script is held. -/
theorem Evaluates.fails {e : RuntimeError} (evaluates : m.Evaluates procedures script t y)
    (fails : t.outcome (procedures.toHost m.budget) m.budget y = .error e z) :
    z.source = some script.source ∧
      m.outcome procedures = .error (.runtime e) { z with source := m.state.source } := by
  obtain ⟨budget, activity, x⟩ := m
  obtain ⟨rfl, during⟩ := evaluates
  have ended : Eval.stmts (procedures.toHost budget) budget script.program
      { x with source := some script.source } = .error e z :=
    Outcome.ending_eq_error.mp (during.fails fails)
  constructor
  · refine Eval.stmts_within Execution.sameScript_steady (procedures.toHost_source budget) budget
      script.program { x with source := some script.source } z ?_
    rw [ended]
    rfl
  · simp only [outcome, Script.runWith, ended]
    rfl

/-- A run whose script calls a function that fails ends in that failure, placed at the call. -/
theorem Evaluates.call_fails {callee : Text} {args : List Expr} {pos : Position} {values : List Value}
    {f : Function} {failure : Failure} {w : Execution}
    (evaluates : m.Evaluates procedures script (.expr (.call callee args pos)) y)
    (valued : Eval.exprs (procedures.toHost m.budget) args y = .ok values z)
    (found : z.env.lookupFunction callee = .ok f)
    (failed : procedures.toHost m.budget f values z = .error failure w) :
    m.outcome procedures = .error (.runtime (failure.place pos (codeFrame script.source pos)))
      { w with source := m.state.source } := by
  have fails := Eval.expr_call_of_failure valued found failed pos
  obtain ⟨held, ended⟩ := evaluates.fails (Outcome.ending_eq_error.mpr fails)
  rw [ended, Execution.frameAt, held]

/-! ## Functions that run texts -/

section

variable {budget : Nat} {f : Function} {args : List Value} {pass : Failure → Failure} {source : Text}
variable {result : Value} {x : Execution}
variable (does : procedures f args = .running pass source result)
variable (compiled : Script.compile source = .ok script)
include does compiled

theorem begins_of_running : Begins procedures ⟨budget + 1, .call f args, x⟩ ⟨budget, .run script, x⟩ := by
  obtain ⟨next, shape, -⟩ := Procedure.running_eq_run pass result compiled
  have comes : (procedures f args).Comes (procedures.toHost budget) budget x (.run script next) x := by
    rw [does, shape]
    exact .start
  exact .runs comes

/-- The function fails as it hands on the error of the run. -/
theorem outcome_of_running {e : RuntimeError}
    (failed : outcome procedures ⟨budget, .run script, x⟩ = .error (.runtime e) y) :
    outcome procedures ⟨budget + 1, .call f args, x⟩ = .error (pass (.runtime e)) y := by
  obtain ⟨next, shape, handsOn⟩ := Procedure.running_eq_run pass result compiled
  obtain ⟨_, ⟨⟩, ran⟩ := outcome_run_eq_error.mp failed
  simp only [outcome, Procedures.toHost, does, shape, Procedure.perform, ran, handsOn]
  rfl

end

end Moment

/-- The task raises an error of its own: its parts complete, it fails, and it is not a call that hands on
what its function fails with. -/
structure Eval.Task.Raises (host : Host) (budget : Nat) (t : Task) (x : Execution) (e : RuntimeError)
    (y : Execution) : Prop where
  innermost : t.Innermost host budget x
  fails : t.outcome host budget x = .error e y
  own : ¬ t.Relays host x e y

namespace Moment

/-- **The running script is put back, and an error shows a line of the script that raised it.** Let an
activity be inside another one, at any depth, while the scripts of a stack are being run. It finds the
source of the innermost of them in the execution, or what was there at the outset if there is none, and
leaves it there, whether it completes or fails. If it is the run of a script, then the source of this
script is there whenever one of its parts is begun. An error that a part raises is placed at that part,
shows the line of this script there, and is the error the run ends in. A run-time error that a function
fails with is the error the run ends in, as it is. There are no other errors. -/
theorem context_of_inside {procedures : Procedures} {start m : Moment} {stack : List Script}
    (inside : Inside procedures start stack m) :
    m.state.source = currentSource start.state.source stack ∧
    (∀ y, (m.outcome procedures).Reaches y → y.source = m.state.source) ∧
    (∀ script t y, m.Evaluates procedures script t y →
      y.source = some script.source ∧
      ∀ e z, t.Raises (procedures.toHost m.budget) m.budget y e z →
        t.place? = some e.pos ∧ e.frame = codeFrame script.source e.pos ∧
        m.outcome procedures = .error (.runtime e) { z with source := m.state.source }) ∧
    (∀ script m' e z, m.activity = .run script → m.Begins procedures m' →
      m'.outcome procedures = .error (.runtime e) z →
      m.outcome procedures = .error (.runtime e) { z with source := m.state.source }) ∧
    ∀ script e z, m.activity = .run script → m.outcome procedures = .error (.runtime e) z →
      ∃ t y z', m.Evaluates procedures script t y ∧
        (t.Raises (procedures.toHost m.budget) m.budget y e z' ∨
          t.Relays (procedures.toHost m.budget) y e z') := by
  refine ⟨inside.source, fun y => source_of_reaches, ?_, ?_, ?_⟩
  · intro script t y evaluates
    refine ⟨evaluates.source, fun e z raises => ?_⟩
    obtain ⟨held, ended⟩ := evaluates.fails raises.fails
    obtain ⟨pos, place, raised⟩ := (raises.innermost.raised raises.fails).resolve_right raises.own
    rw [raised.place, raised.frame, Execution.frameAt, held]
    exact ⟨place, rfl, ended⟩
  · intro script m' e z isRun begins failed
    cases begins with
    | invokes evaluates valued found =>
        exact evaluates.call_fails valued found (Outcome.ending_eq_error.mp failed)
    | calls | runs => cases isRun
  · intro script e z isRun failed
    obtain ⟨reached, fails⟩ := stmts_of_outcome isRun failed
    obtain ⟨t, y, during, innermost, raised⟩ := Eval.exists_innermost fails
    refine ⟨t, y, reached, ⟨isRun, during⟩, ?_⟩
    by_cases relays : t.Relays (procedures.toHost m.budget) y e reached
    · exact .inr relays
    · exact .inl ⟨innermost, raised, relays⟩

/-- A text that runs the text in `t`, and then reads a name that is not bound. -/
def retelling : Text := utf8 "EVAL(t)\ny = z"

def teller : Script := ⟨utf8 "EVAL(u)", [.call (utf8 "EVAL") [.name (utf8 "u") ⟨1, 6⟩] ⟨1, 1⟩]⟩

def evaluator : Function := ⟨1, utf8 "EVAL", .eval⟩

/-- An execution with this function, and with texts to run in `t` and `u`. -/
def library : Execution :=
  (((Engine.initial.register (utf8 "EVAL") .eval).newExecution (.empty none)).define (utf8 "t")
    (.text (utf8 "x = 1"))).define (utf8 "u") (.text retelling)

/-- Of two statements the first, and the name that the second assigns the value of, with its place. -/
def thenReads? : Program → Option (Stmt × Text × Position)
  | [first, .assign _ (.name name pos) _] => some (first, name, pos)
  | _ => none

theorem thenReads?_eq_some {program : Program} {first : Stmt} {name : Text} {pos : Position}
    (reads : thenReads? program = some (first, name, pos)) :
    ∃ target own, program = [first, .assign target (.name name pos) own] := by
  unfold thenReads? at reads
  split at reads
  · cases reads
    exact ⟨_, _, rfl⟩
  · cases reads

/-- The first statement of the text completes, and the second reads a name that is not bound. -/
theorem compile_retelling : ∃ (second : Script) (first : Stmt) (target name : Text) (own : Position)
    (y : Execution), Script.compile retelling = .ok second ∧
      second.program = [first, .assign target (.name name ⟨2, 5⟩) own] ∧
      Eval.stmt (Procedures.standard.toHost 2) 2 first { library with source := some retelling } =
        .ok () y ∧ y.env.get? name = none := by
  have computed : ((Script.compile retelling).toOption.any fun second =>
      (thenReads? second.program).any fun parts =>
        (Eval.stmt (Procedures.standard.toHost 2) 2 parts.1
            { library with source := some retelling }).completed.any fun ended =>
          decide (parts.2.2 = ⟨2, 5⟩ ∧ (ended.2.env.get? parts.2.1).isNone)) = true := by
    decide +kernel
  obtain ⟨second, found, checked⟩ := (Option.any_eq_true _ _).mp computed
  obtain ⟨⟨first, name, pos⟩, reads, checked⟩ := (Option.any_eq_true _ _).mp checked
  obtain ⟨⟨_, y⟩, ended, checked⟩ := (Option.any_eq_true _ _).mp checked
  obtain ⟨rfl, unbound⟩ := of_decide_eq_true checked
  obtain ⟨target, own, shape⟩ := thenReads?_eq_some reads
  exact ⟨second, first, target, name, own, y, Script.toOption_compile.mp found, shape,
    Outcome.completed_eq_some.mp ended, Option.isNone_iff_eq_none.mp unbound⟩

/-- A script runs a second one, which runs a third one and then fails. The error shows a line of the
second script, and it is the error that the first one ends in. -/
theorem context_of_inside_second_script :
    ∃ (m : Moment) (second : Script) (e : RuntimeError) (z : Execution),
      Script.compile retelling = .ok second ∧
      Inside .standard ⟨3, .run teller, library⟩ [teller] m ∧ m.activity = .run second ∧
      m.state.source = some teller.source ∧ e.frame = codeFrame retelling ⟨2, 5⟩ ∧
      m.outcome .standard = .error (.runtime e) { z with source := some teller.source } ∧
      (⟨3, .run teller, library⟩ : Moment).outcome .standard =
        .error (.runtime e) { z with source := none } := by
  obtain ⟨second, first, target, name, own, y, compiled, shape, ran, unbound⟩ := compile_retelling
  obtain ⟨-, same⟩ := Script.compile_eq_ok.mp compiled
  have does : Procedures.standard evaluator [.text retelling] = .running id retelling .null := rfl
  -- The first script calls the function, and this begins the run of the second.
  have calls : Begins .standard ⟨3, .run teller, library⟩
      ⟨3, .call evaluator [.text retelling], { library with source := some teller.source }⟩ :=
    .invokes ⟨rfl, .inner (.inner .itself .head) .call⟩ rfl rfl
  have inside := (Inside.itself.inner calls).inner (begins_of_running does compiled)
  obtain ⟨held, -, parts, -⟩ := context_of_inside inside
  -- After the run of the third, the second script reads the name.
  have reads : Evaluates .standard ⟨2, .run second, { library with source := some teller.source }⟩ second
      (.expr (.name name ⟨2, 5⟩)) y := by
    refine ⟨rfl, ?_⟩
    rw [shape, same]
    exact .inner (.inner (.inner .itself (.tail ran)) .head) .value
  have raises : (Eval.Task.expr (.name name ⟨2, 5⟩)).Raises (Procedures.standard.toHost 2) 2 y
      ⟨.fault (.unboundVariable name), ⟨2, 5⟩, y.frameAt ⟨2, 5⟩⟩ y := by
    refine ⟨nofun, Outcome.ending_eq_error.mpr ?_, nofun⟩
    rw [Eval.expr, Eval.variableValue, Env.lookup, unbound]
    rfl
  obtain ⟨-, frame, ended⟩ := (parts second _ y reads).2 _ y raises
  rw [same] at frame
  -- The function hands the error on as it is, and so the first script ends in it.
  have failed := outcome_of_running does compiled ended
  obtain ⟨-, -, -, passes, -⟩ := context_of_inside (Inside.itself : Inside .standard _ _ _)
  have final := passes teller _ _ _ rfl calls failed
  exact ⟨_, second, _, y, compiled, inside, rfl, held, frame, ended, final⟩

end Moment

end LoopScript
