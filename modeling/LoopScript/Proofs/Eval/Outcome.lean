/-
# LoopScript.Proofs.Eval.Outcome — what a run may come to

`Outcome.Meets spent ok err` says that a value satisfies `ok` together with the execution reached, an
error satisfies `err`, and the budget is spent only if `spent`. The last makes one statement serve two
purposes: with `False` it also says that the run comes to an end.

`Meets.bind` puts runs one after the other. `meets_repeatWhile` is the rule for loops: what the test and
the body keep, the loop keeps.
-/
import LoopScript.Eval

namespace LoopScript

set_option autoImplicit false

namespace Outcome

variable {ε α : Type}

/-- A value satisfies `ok`, an error satisfies `err`, and the budget is spent only if `spent`. -/
def Meets (spent : Prop) (ok : α → Execution → Prop) (err : ε → Execution → Prop) :
    Outcome ε α → Prop
  | .ok value x => ok value x
  | .error e x => err e x
  | .exhausted => spent

theorem Meets.mono {spent : Prop} {ok ok' : α → Execution → Prop} {err err' : ε → Execution → Prop}
    {o : Outcome ε α} (meets : o.Meets spent ok err) (weakerOk : ∀ a x, ok a x → ok' a x)
    (weakerErr : ∀ e x, err e x → err' e x) : o.Meets spent ok' err' := by
  cases o with
  | ok a x => exact weakerOk a x meets
  | error e x => exact weakerErr e x meets
  | exhausted => exact meets

theorem Meets.mapError {δ : Type} {spent : Prop} {ok : α → Execution → Prop}
    {err : ε → Execution → Prop} {err' : δ → Execution → Prop} {f : Execution → ε → δ}
    {o : Outcome ε α} (meets : o.Meets spent ok err) (mapped : ∀ e x, err e x → err' (f x e) x) :
    (o.mapError f).Meets spent ok err' := by
  cases o with
  | ok a x => exact meets
  | error e x => exact mapped e x meets
  | exhausted => exact meets

/-- What a run that completes gives, and the execution reached. -/
def completed : Outcome ε α → Option (α × Execution)
  | .ok a y => some (a, y)
  | _ => none

/-- The error a run ends in, and the execution reached. -/
def failed : Outcome ε α → Option (ε × Execution)
  | .error e y => some (e, y)
  | _ => none

theorem completed_eq_some {o : Outcome ε α} {a : α} {y : Execution} :
    o.completed = some (a, y) ↔ o = .ok a y := by
  cases o <;> simp [completed]

theorem failed_eq_some {o : Outcome ε α} {e : ε} {y : Execution} :
    o.failed = some (e, y) ↔ o = .error e y := by
  cases o <;> simp [failed]

end Outcome

namespace Run

variable {ε α β : Type}

theorem bind_apply (r : Run ε α) (next : α → Run ε β) (x : Execution) :
    (r >>= next) x = match r x with
      | .ok a y => next a y
      | .error e y => .error e y
      | .exhausted => .exhausted := rfl

theorem bind_of_ok {r : Run ε α} {next : α → Run ε β} {a : α} {x y : Execution}
    (ended : r x = .ok a y) : (r >>= next) x = next a y := by
  rw [bind_apply, ended]

theorem bind_of_error {r : Run ε α} {next : α → Run ε β} {e : ε} {x y : Execution}
    (failed : r x = .error e y) : (r >>= next) x = .error e y := by
  rw [bind_apply, failed]

theorem meets_bind {spent : Prop} {first : α → Execution → Prop} {ok : β → Execution → Prop}
    {err : ε → Execution → Prop} {r : Run ε α} {next : α → Run ε β} {x : Execution}
    (meets : (r x).Meets spent first err)
    (after : ∀ a y, first a y → (next a y).Meets spent ok err) :
    ((r >>= next) x).Meets spent ok err := by
  rw [bind_apply]
  cases reached : r x with
  | ok a y =>
      rw [reached] at meets
      exact after a y meets
  | error e y =>
      rw [reached] at meets
      exact meets
  | exhausted =>
      rw [reached] at meets
      exact meets

end Run

namespace Eval

variable {again : Run RuntimeError Bool} {body : Run RuntimeError Unit}

/-- One pass of a loop: the body, the test, and the loop again if the test holds. -/
theorem repeatWhile_succ (budget : Nat) :
    repeatWhile again body (budget + 1) = (do
      body
      let more ← again
      if more then repeatWhile again body budget else Run.pure ()) := by
  funext x
  rw [repeatWhile, Run.bind_apply]
  dsimp only
  cases body x with
  | ok _ y =>
      dsimp only
      rw [Run.bind_apply]
      rcases again y with ⟨_ | _, z⟩ | ⟨e, z⟩ | _ <;> rfl
  | error e y => rfl
  | exhausted => rfl

/-- What the test and the body of a loop keep, the loop keeps; it fails only as they do. -/
theorem meets_repeatWhile {I : Execution → Prop} {err : RuntimeError → Execution → Prop}
    (tests : ∀ x, I x → (again x).Meets True (fun _ y => I y) err)
    (passes : ∀ x, I x → (body x).Meets True (fun _ y => I y) err) :
    ∀ (budget : Nat) (x : Execution), I x →
      (repeatWhile again body budget x).Meets True (fun _ y => I y) err
  | 0, _, _ => trivial
  | budget + 1, x, holds => by
      rw [repeatWhile_succ]
      refine Run.meets_bind (passes x holds) fun _ y passed => ?_
      refine Run.meets_bind (tests y passed) fun more z tested => ?_
      cases more with
      | true => exact meets_repeatWhile tests passes budget z tested
      | false => exact tested

end Eval

namespace Script

variable {host : Host} {budget : Nat} {script : Script} {x y : Execution}

/-- A script ends in an error as its statements do, with its source in place. -/
theorem runWith_eq_error {e : RuntimeError} (ran : script.runWith host budget x = .error e y) :
    ∃ z, Eval.stmts host budget script.program { x with source := some script.source } = .error e z ∧
      y = { z with source := x.source } := by
  rw [runWith] at ran
  cases ended : Eval.stmts host budget script.program { x with source := some script.source } with
  | ok _ z => rw [ended] at ran; cases ran
  | error e' z =>
      rw [ended] at ran
      cases ran
      exact ⟨z, rfl, rfl⟩
  | exhausted => rw [ended] at ran; cases ran

/-- A script completes as its statements do, with its source in place. -/
theorem runWith_eq_ok (ran : script.runWith host budget x = .ok () y) :
    ∃ z, Eval.stmts host budget script.program { x with source := some script.source } = .ok () z ∧
      y = { z with source := x.source } := by
  rw [runWith] at ran
  cases ended : Eval.stmts host budget script.program { x with source := some script.source } with
  | ok _ z =>
      rw [ended] at ran
      cases ran
      exact ⟨z, rfl, rfl⟩
  | error e' z => rw [ended] at ran; cases ran
  | exhausted => rw [ended] at ran; cases ran

end Script

end LoopScript
