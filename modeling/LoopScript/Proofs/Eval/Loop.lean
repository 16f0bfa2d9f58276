/-
# LoopScript.Proofs.Eval.Loop — what a loop does

A loop tests its condition. If the test fails the alternative runs, once; if it holds the body runs and
then the same loop without its alternative (`evalStmt_loop`). This is an equation between evaluations
(`LoopScript.Proofs.Eval.Limit`), so it also says when a loop runs for ever.

`Course` follows the equation to the end of a loop and writes down what was begun on the way: tests,
bodies, the alternative. A loop ends in `o` just when it has a course to `o` (`exists_course_iff`), and
what can be counted is counted on the course: the body has run as often as tests held before one did not,
and the alternative only if the body never did.
-/
import LoopScript.Proofs.Eval.Limit

namespace LoopScript

set_option autoImplicit false

namespace Eval

open Run (Below Rising limit)

section

variable (host : Host) (word : Text) (condition : Expr) (body : List Stmt)

/-! ## Unrolling -/

/-- The evaluation of a loop whose test has held. -/
noncomputable def evalPasses : Run RuntimeError Unit :=
  limit fun n => repeatWhile (test host word condition) (stmts host n body) n

theorem evalStmt_loop_eq_passes (bodyPos : Position) (alternative : Option Stmt) (pos : Position) :
    evalStmt host (.loop word condition body bodyPos alternative pos) = (do
      if ← test host word condition then evalPasses host word condition body
      else evalOtherwise host alternative) := by
  have rising : ∀ more : Bool, Rising fun n =>
      if more then repeatWhile (test host word condition) (stmts host n body) n
      else otherwise host n alternative := by
    intro more
    cases more with
    | true => exact repeatWhile_rising (stmts_rising host body)
    | false => exact otherwise_rising host alternative
  simp only [evalStmt, stmt]
  rw [Run.limit_bind (.const _) rising, Run.limit_const]
  congr 1
  funext more
  cases more with
  | true => rfl
  | false => exact limit_otherwise host alternative

/-- One pass: the body, the test, and further passes if the test holds. -/
theorem evalPasses_eq :
    evalPasses host word condition body = (do
      evalStmts host body
      if ← test host word condition then evalPasses host word condition body
      else Run.pure ()) := by
  have bodies := stmts_rising host body
  have passes : Rising fun n => repeatWhile (test host word condition) (stmts host n body) n :=
    repeatWhile_rising bodies
  have rest : ∀ more : Bool, Rising fun n =>
      if more then repeatWhile (test host word condition) (stmts host n body) n else Run.pure () := by
    intro more
    cases more with
    | true => exact passes
    | false => exact .const _
  -- One pass more lies between the budgets `n` and `n + 1`, so it does not change the limit.
  have oneMore : limit (fun n => repeatWhile (test host word condition) (stmts host n body) (n + 1)) =
      evalPasses host word condition body :=
    Run.limit_between passes (fun n => repeatWhile_below (.refl _) (Nat.le_succ n))
      fun n => repeatWhile_below (bodies n) (Nat.le_refl _)
  refine oneMore.symm.trans ?_
  simp only [repeatWhile_succ]
  rw [Run.limit_bind bodies fun _ => (Rising.const _).bind rest, Run.limit_bind (.const _) rest,
    Run.limit_const]
  congr 1
  funext _
  congr 1
  funext more
  cases more with
  | true => rfl
  | false => exact Run.limit_const _

/-- A loop whose test holds runs its body and then itself without its alternative. -/
theorem evalStmt_loop (bodyPos : Position) (alternative : Option Stmt) (pos : Position) :
    evalStmt host (.loop word condition body bodyPos alternative pos) = (do
      if ← test host word condition then
        evalStmts host body
        evalStmt host (.loop word condition body bodyPos none pos)
      else evalOtherwise host alternative) := by
  rw [evalStmt_loop_eq_passes, evalPasses_eq, evalStmt_loop_eq_passes]
  rfl

/-- A condition is tested for truth after `while` and for falsehood after any other word; a value that is
no truth value is an error at the condition. -/
theorem test_apply (x : Execution) :
    test host word condition x = match expr host condition x with
      | .ok (.bool b) y => .ok (b = decide (word = utf8 "while")) y
      | .ok _ y => .error ⟨.fault .notABoolean, condition.pos, y.frameAt condition.pos⟩ y
      | .error e y => .error e y
      | .exhausted => .exhausted := by
  rw [test, Run.bind_apply]
  cases expr host condition x with
  | ok v y =>
      by_cases loops : word = utf8 "while"
      · cases v with
        | bool b => cases b <;> simp [goesOn, loops, Value.isTrue, Run.ofFault, Run.pure]
        | _ => simp [goesOn, loops, Value.isTrue, Run.ofFault, Run.raise]
      · cases v with
        | bool b =>
            cases b <;> simp [goesOn, loops, Value.isFalse, Value.isTrue, Except.map, Run.ofFault, Run.pure]
        | _ => simp [goesOn, loops, Value.isFalse, Value.isTrue, Except.map, Run.ofFault, Run.raise]
  | error e y => rfl
  | exhausted => rfl

end

/-! ## The course of a loop -/

/-- What is begun in the course of a loop: a test, which holds or not unless it ends in an error, the
body, or the alternative. -/
inductive LoopEvent where
  | test (holds : Option Bool)
  | body
  | alternative
deriving DecidableEq, Repr

namespace LoopEvent

/-- What the tests came to, in order. -/
def tests : List LoopEvent → List (Option Bool)
  | [] => []
  | .test holds :: rest => holds :: tests rest
  | _ :: rest => tests rest

/-- How many tests held before one did not. -/
def leadingHeld (events : List LoopEvent) : Nat :=
  ((tests events).takeWhile fun holds => holds == some true).length

end LoopEvent

/-- Begun in `x` with the given alternative, the loop goes through `events` and ends in `o`. -/
inductive Course (host : Host) (word : Text) (condition : Expr) (body : List Stmt) :
    Option Stmt → Execution → List LoopEvent → Outcome RuntimeError Unit → Prop where
  | untested {alternative : Option Stmt} {x y : Execution} {e : RuntimeError} :
      test host word condition x = .error e y →
      Course host word condition body alternative x [.test none] (.error e y)
  | finished {x y : Execution} :
      test host word condition x = .ok false y →
      Course host word condition body none x [.test (some false)] (.ok () y)
  | otherwise {other : Stmt} {x y : Execution} {o : Outcome RuntimeError Unit} :
      test host word condition x = .ok false y → evalStmt host other y = o → o ≠ .exhausted →
      Course host word condition body (some other) x [.test (some false), .alternative] o
  | broken {alternative : Option Stmt} {x y z : Execution} {e : RuntimeError} :
      test host word condition x = .ok true y → evalStmts host body y = .error e z →
      Course host word condition body alternative x [.test (some true), .body] (.error e z)
  | passed {alternative : Option Stmt} {x y z : Execution} {events : List LoopEvent}
      {o : Outcome RuntimeError Unit} :
      test host word condition x = .ok true y → evalStmts host body y = .ok () z →
      Course host word condition body none z events o →
      Course host word condition body alternative x (.test (some true) :: .body :: events) o

section

variable {host : Host} {word : Text} {condition : Expr} {body : List Stmt} {alternative : Option Stmt}
variable {x y : Execution} {events : List LoopEvent} {o : Outcome RuntimeError Unit}

/-- A course ends as the evaluation of the loop does. -/
theorem Course.evaluates (bodyPos pos : Position)
    (course : Course host word condition body alternative x events o) :
    evalStmt host (.loop word condition body bodyPos alternative pos) x = o ∧ o ≠ .exhausted := by
  induction course with
  | untested tested =>
      rw [evalStmt_loop, Run.bind_apply, tested]
      exact ⟨rfl, nofun⟩
  | finished tested =>
      rw [evalStmt_loop, Run.bind_apply, tested]
      exact ⟨rfl, nofun⟩
  | otherwise tested other ends =>
      rw [evalStmt_loop, Run.bind_apply, tested]
      exact ⟨other, ends⟩
  | broken tested ran =>
      rw [evalStmt_loop, Run.bind_apply, tested]
      refine ⟨?_, nofun⟩
      show (evalStmts host body >>= fun _ => _) _ = _
      rw [Run.bind_apply, ran]
  | passed tested ran _ ih =>
      rw [evalStmt_loop, Run.bind_apply, tested]
      refine ⟨?_, ih.2⟩
      show (evalStmts host body >>= fun _ => _) _ = _
      rw [Run.bind_apply, ran]
      exact ih.1

/-- Passes that come to an end with some budget have a course. -/
theorem exists_course_of_passes {budget : Nat} : ∀ (left : Nat) {alternative : Option Stmt}
    {x y : Execution}, test host word condition x = .ok true y →
      repeatWhile (test host word condition) (stmts host budget body) left y = o → o ≠ .exhausted →
      ∃ events, Course host word condition body alternative x events o
  | 0, _, _, _, _, ended, ends => absurd ended.symm ends
  | left + 1, _, x, y, tested, ended, ends => by
      have whole := stmts_rising host body
      rw [repeatWhile_succ, Run.bind_apply] at ended
      cases ran : stmts host budget body y with
      | ok _ z =>
          have passed : evalStmts host body y = .ok () z := whole.limit_of_ends ran nofun
          rw [ran] at ended
          dsimp only at ended
          rw [Run.bind_apply] at ended
          cases again : test host word condition z with
          | ok more w =>
              rw [again] at ended
              cases more with
              | true =>
                  obtain ⟨events, course⟩ := exists_course_of_passes left again ended ends
                  exact ⟨_, .passed tested passed course⟩
              | false =>
                  cases ended
                  exact ⟨_, .passed tested passed (.finished again)⟩
          | error e w =>
              rw [again] at ended
              cases ended
              exact ⟨_, .passed tested passed (.untested again)⟩
          | exhausted =>
              rw [again] at ended
              exact absurd ended.symm ends
      | error e z =>
          rw [ran] at ended
          cases ended
          exact ⟨_, .broken tested (whole.limit_of_ends ran nofun)⟩
      | exhausted =>
          rw [ran] at ended
          exact absurd ended.symm ends

/-- A loop ends in `o` just when it has a course to `o`. -/
theorem exists_course_iff (bodyPos pos : Position) :
    (∃ events, Course host word condition body alternative x events o) ↔
      evalStmt host (.loop word condition body bodyPos alternative pos) x = o ∧ o ≠ .exhausted := by
  constructor
  · rintro ⟨events, course⟩
    exact course.evaluates bodyPos pos
  · rintro ⟨evaluated, ends⟩
    obtain ⟨budget, ended⟩ := ((stmt_rising host _).limit_eq_iff ends).mp evaluated
    simp only [stmt] at ended
    rw [Run.bind_apply] at ended
    cases tested : test host word condition x with
    | ok more y =>
        rw [tested] at ended
        cases more with
        | true => exact exists_course_of_passes budget tested ended ends
        | false =>
            have other := (otherwise_rising host alternative).limit_of_ends ended ends
            rw [limit_otherwise] at other
            cases alternative with
            | none =>
                cases other
                exact ⟨_, .finished tested⟩
            | some s => exact ⟨_, .otherwise tested other ends⟩
    | error e y =>
        rw [tested] at ended
        cases ended
        exact ⟨_, .untested tested⟩
    | exhausted =>
        rw [tested] at ended
        exact absurd ended.symm ends

/-- Without an alternative none is begun. -/
theorem Course.alternative_notMem
    (course : Course host word condition body alternative x events o) (absent : alternative = none) :
    .alternative ∉ events := by
  induction course with
  | otherwise => cases absent
  | passed _ _ _ ih => simpa using ih rfl
  | untested | finished | broken => simp

/-- The body runs as often as tests hold before one does not. -/
theorem Course.count_body (course : Course host word condition body alternative x events o) :
    events.count .body = LoopEvent.leadingHeld events := by
  induction course with
  | passed _ _ _ ih =>
      simp only [LoopEvent.leadingHeld] at ih ⊢
      simp [LoopEvent.tests, ih]
  | untested | finished | otherwise | broken => decide

/-- The alternative runs at most once, and only if the body never does. -/
theorem Course.count_alternative (course : Course host word condition body alternative x events o) :
    events.count .alternative ≤ 1 ∧ (.body ∈ events → .alternative ∉ events) := by
  cases course with
  | passed _ _ later =>
      have absent := later.alternative_notMem rfl
      simp [absent, List.count_eq_zero.mpr absent]
  | untested | finished | otherwise | broken => decide

end

/-- **A loop unrolls.** For every loop, whatever its opening word, and every behaviour of the host: its
evaluation is that of its condition, whose value must be true after `while` and false after any other word
for the test to hold; then, if the test holds, that of the body followed by the same loop without its
alternative, and otherwise that of the alternative. A condition that is no truth value is a type error at
the condition, and the first error ends the loop, in the state reached. A loop that ends has a course, on
which the body runs as often as tests hold before one does not, and the alternative at most once and not
after the body. -/
theorem loop_unrolls (host : Host) (word : Text) (condition : Expr) (body : List Stmt)
    (bodyPos : Position) (alternative : Option Stmt) (pos : Position) (x : Execution) :
    (evalStmt host (.loop word condition body bodyPos alternative pos) x =
      match expr host condition x with
      | .ok (.bool b) y =>
          if b = decide (word = utf8 "while") then
            match evalStmts host body y with
            | .ok _ z => evalStmt host (.loop word condition body bodyPos none pos) z
            | .error e z => .error e z
            | .exhausted => .exhausted
          else
            match alternative with
            | none => .ok () y
            | some other => evalStmt host other y
      | .ok _ y => .error ⟨.fault .notABoolean, condition.pos, y.frameAt condition.pos⟩ y
      | .error e y => .error e y
      | .exhausted => .exhausted) ∧
    Fault.notABoolean.kind = .type ∧
    (∀ o, (∃ events, Course host word condition body alternative x events o) ↔
      evalStmt host (.loop word condition body bodyPos alternative pos) x = o ∧ o ≠ .exhausted) ∧
    ∀ events o, Course host word condition body alternative x events o →
      events.count .body = LoopEvent.leadingHeld events ∧
      events.count .alternative ≤ 1 ∧ (.body ∈ events → .alternative ∉ events) := by
  refine ⟨?_, rfl, fun o => exists_course_iff bodyPos pos,
    fun events o course => ⟨course.count_body, course.count_alternative⟩⟩
  rw [evalStmt_loop, Run.bind_apply, test_apply]
  cases expr host condition x with
  | ok v y =>
      cases v with
      | bool b =>
          by_cases holds : b = decide (word = utf8 "while")
          · simp only [holds, decide_true, if_true]
            rw [Run.bind_apply]
            cases evalStmts host body y <;> rfl
          · simp only [holds, decide_false, if_false]
            cases alternative <;> rfl
      | _ => rfl
  | error e y => rfl
  | exhausted => rfl

end Eval

end LoopScript
