/-
# LoopScript.Proofs.Eval.Limit — evaluation without a budget

The budget of a run bounds the passes of its loops. A run that has come to an end comes to the same with
more budget (`stmt_rising`), so the runs of a statement settle: from some budget on all of them come to
one outcome. That outcome is the evaluation of the statement, in which no budget shows (`Run.limit`,
`Eval.evalStmt`). It is `exhausted` where no budget is enough, that is, where the statement runs for ever.

Limits go through sequencing (`limit_bind`), and runs that lie between others have the same limit
(`limit_between`).
-/
import LoopScript.Proofs.Eval.Outcome
import Mathlib.Logic.Basic

namespace LoopScript

set_option autoImplicit false

namespace Run

variable {ε α β : Type}

/-- Where `r` comes to an end, `s` comes to the same. -/
def Below (r s : Run ε α) : Prop := ∀ x, r x ≠ .exhausted → s x = r x

theorem Below.refl (r : Run ε α) : r.Below r := fun _ _ => rfl

theorem Below.trans {r s t : Run ε α} (first : r.Below s) (second : s.Below t) : r.Below t := by
  intro x ends
  have same := first x ends
  rw [second x (same ▸ ends), same]

theorem Below.bind {r s : Run ε α} {next after : α → Run ε β} (first : r.Below s)
    (second : ∀ a, (next a).Below (after a)) : (r >>= next).Below (s >>= after) := by
  intro x ends
  rw [bind_apply] at ends ⊢
  rw [bind_apply]
  cases ended : r x with
  | ok a y =>
      rw [ended] at ends
      rw [first x (by rw [ended]; nofun), ended]
      exact second a y ends
  | error e y => rw [first x (by rw [ended]; nofun), ended]
  | exhausted =>
      rw [ended] at ends
      exact absurd rfl ends

/-- One run for each budget, of which every one goes at least as far as the one before. -/
def Rising (r : Nat → Run ε α) : Prop := ∀ n, (r n).Below (r (n + 1))

theorem Rising.below {r : Nat → Run ε α} (rising : Rising r) {n m : Nat} (le : n ≤ m) :
    (r n).Below (r m) := by
  induction le with
  | refl => exact .refl _
  | step _ ih => exact ih.trans (rising _)

theorem Rising.const (r : Run ε α) : Rising fun _ => r := fun _ => .refl r

theorem Rising.bind {r : Nat → Run ε α} {next : Nat → α → Run ε β} (first : Rising r)
    (second : ∀ a, Rising fun n => next n a) : Rising fun n => r n >>= next n :=
  fun n => (first n).bind fun a => second a n

/-- From some budget on, the runs come to `o`. -/
def Settles (r : Nat → Run ε α) (x : Execution) (o : Outcome ε α) : Prop :=
  ∃ n, ∀ m, n ≤ m → r m x = o

theorem Settles.unique {r : Nat → Run ε α} {x : Execution} {o o' : Outcome ε α}
    (first : Settles r x o) (second : Settles r x o') : o = o' := by
  obtain ⟨n, first⟩ := first
  obtain ⟨m, second⟩ := second
  rw [← first (max n m) (Nat.le_max_left n m), second (max n m) (Nat.le_max_right n m)]

open Classical in
/-- What the runs settle at. -/
noncomputable def limit (r : Nat → Run ε α) : Run ε α := fun x =>
  if settled : ∃ o, Settles r x o then settled.choose else .exhausted

theorem limit_eq {r : Nat → Run ε α} {x : Execution} {o : Outcome ε α} (settles : Settles r x o) :
    limit r x = o := by
  have settled : ∃ o, Settles r x o := ⟨o, settles⟩
  rw [limit, dif_pos settled]
  exact settled.choose_spec.unique settles

variable {r s : Nat → Run ε α} {x : Execution}

/-- Runs of which one comes to an end settle there, and all others settle at going on for ever. -/
theorem Rising.settles (rising : Rising r) (x : Execution) : Settles r x (limit r x) := by
  have settled : ∃ o, Settles r x o := by
    by_cases ends : ∃ n, r n x ≠ .exhausted
    · obtain ⟨n, ends⟩ := ends
      exact ⟨r n x, n, fun m le => rising.below le x ends⟩
    · exact ⟨.exhausted, 0, fun m _ => not_not.mp fun going => ends ⟨m, going⟩⟩
  obtain ⟨o, settles⟩ := settled
  rwa [limit_eq settles]

/-- An end that some budget reaches is the limit. -/
theorem Rising.limit_of_ends {n : Nat} {o : Outcome ε α} (rising : Rising r) (ended : r n x = o)
    (ends : o ≠ .exhausted) : limit r x = o :=
  limit_eq ⟨n, fun _ le => (rising.below le x (ended ▸ ends)).trans ended⟩

/-- An outcome other than going on for ever is the limit just when some budget reaches it. -/
theorem Rising.limit_eq_iff {o : Outcome ε α} (rising : Rising r) (ends : o ≠ .exhausted) :
    limit r x = o ↔ ∃ n, r n x = o := by
  constructor
  · rintro rfl
    obtain ⟨n, settled⟩ := rising.settles x
    exact ⟨n, settled n (Nat.le_refl n)⟩
  · rintro ⟨n, ended⟩
    exact rising.limit_of_ends ended ends

theorem limit_const (r : Run ε α) : limit (fun _ => r) = r :=
  funext fun _ => limit_eq ⟨0, fun _ _ => rfl⟩

/-- The limit of runs one after the other is one limit after the other. -/
theorem limit_bind {next : Nat → α → Run ε β} (first : Rising r)
    (second : ∀ a, Rising fun n => next n a) :
    limit (fun n => r n >>= next n) = limit r >>= fun a => limit fun n => next n a := by
  funext x
  obtain ⟨n, settled⟩ := first.settles x
  rw [bind_apply]
  cases ended : limit r x with
  | ok a y =>
      obtain ⟨k, after⟩ := (second a).settles y
      refine limit_eq ⟨max n k, fun m le => ?_⟩
      show (r m >>= next m) x = _
      rw [bind_apply, settled m (by omega), ended]
      exact after m (by omega)
  | error e y =>
      refine limit_eq ⟨n, fun m le => ?_⟩
      show (r m >>= next m) x = _
      rw [bind_apply, settled m le, ended]
  | exhausted =>
      refine limit_eq ⟨n, fun m le => ?_⟩
      show (r m >>= next m) x = _
      rw [bind_apply, settled m le, ended]

/-- Runs that lie between the runs of another family have its limit. -/
theorem limit_between (rising : Rising r) (above : ∀ n, (r n).Below (s n))
    (below : ∀ n, (s n).Below (r (n + 1))) : limit s = limit r := by
  funext x
  obtain ⟨n, settled⟩ := rising.settles x
  refine limit_eq ⟨n, fun m le => ?_⟩
  by_cases ends : r m x = .exhausted
  · have for_ever : r (m + 1) x = .exhausted := by rw [settled (m + 1) (by omega), ← settled m le, ends]
    have going : s m x = .exhausted :=
      not_not.mp fun stops => stops ((below m x stops).symm.trans for_ever)
    rw [going, ← settled m le, ends]
  · rw [above m x ends, settled m le]

end Run

namespace Eval

open Run (Below Rising limit)

/-! ## More budget -/

/-- A loop goes at least as far with a body that does and with more passes. -/
theorem repeatWhile_below {again : Run RuntimeError Bool} {body further : Run RuntimeError Unit}
    (bodies : body.Below further) :
    ∀ {n m : Nat}, n ≤ m → (repeatWhile again body n).Below (repeatWhile again further m)
  | 0, _, _ => fun _ ends => absurd rfl ends
  | n + 1, m + 1, le => by
      rw [repeatWhile_succ, repeatWhile_succ]
      refine bodies.bind fun _ => (Below.refl again).bind fun more => ?_
      cases more with
      | true => exact repeatWhile_below bodies (Nat.le_of_succ_le_succ le)
      | false => exact .refl _

theorem repeatWhile_rising {again : Run RuntimeError Bool} {body : Nat → Run RuntimeError Unit}
    (bodies : Rising body) : Rising fun n => repeatWhile again (body n) n :=
  fun n => repeatWhile_below (bodies n) (Nat.le_succ n)

mutual

/-- A statement that comes to an end comes to the same with more budget. -/
theorem stmt_rising (host : Host) : ∀ s : Stmt, Rising fun n => stmt host n s
  | .assign target value pos => by
      simp only [stmt]
      exact .const _
  | .call callee args pos => by
      simp only [stmt]
      exact .const _
  | .block body pos => by
      simp only [stmt]
      exact stmts_rising host body
  | .loop word condition body bodyPos alternative pos => by
      simp only [stmt]
      refine (Rising.const (test host word condition)).bind fun more => ?_
      cases more with
      | true => exact repeatWhile_rising (stmts_rising host body)
      | false => exact otherwise_rising host alternative
  | .branch condition body bodyPos alternative pos => by
      simp only [stmt]
      exact .const _

theorem stmts_rising (host : Host) : ∀ ss : List Stmt, Rising fun n => stmts host n ss
  | [] => by
      simp only [stmts]
      exact .const _
  | s :: rest => by
      simp only [stmts]
      exact (stmt_rising host s).bind fun _ => stmts_rising host rest

theorem otherwise_rising (host : Host) :
    ∀ alternative : Option Stmt, Rising fun n => otherwise host n alternative
  | none => by
      simp only [otherwise]
      exact .const _
  | some s => by
      simp only [otherwise]
      exact stmt_rising host s

end

/-! ## Evaluation -/

/-- The evaluation of a statement; `exhausted` if it runs for ever. -/
noncomputable def evalStmt (host : Host) (s : Stmt) : Run RuntimeError Unit :=
  limit fun n => stmt host n s

noncomputable def evalStmts (host : Host) (ss : List Stmt) : Run RuntimeError Unit :=
  limit fun n => stmts host n ss

noncomputable def evalOtherwise (host : Host) : Option Stmt → Run RuntimeError Unit
  | none => Run.pure ()
  | some s => evalStmt host s

theorem limit_otherwise (host : Host) (alternative : Option Stmt) :
    limit (fun n => otherwise host n alternative) = evalOtherwise host alternative := by
  cases alternative with
  | none =>
      simp only [otherwise]
      exact Run.limit_const _
  | some s =>
      simp only [otherwise]
      rfl

end Eval

end LoopScript
