/-
# LoopScript.Proofs.Console.Candidates — the words that a stem can be completed to

`candidates` filters, sorts, and then drops neighbours that are equal. In a sorted list equal words are
neighbours, so what is left is in strictly increasing order (`candidates_ascending`), and it has the same
words (`mem_candidates`): each reserved word and each bound name that begins with the stem, once.
-/
import LoopScript.Console.Basic

namespace LoopScript.Console

set_option autoImplicit false

/-! ## Dropping equal neighbours -/

section

variable {α : Type} [BEq α]

theorem eraseReps_loop (acc : List α) : ∀ (a : α) (rest : List α),
    List.eraseRepsBy.loop (· == ·) a rest acc = acc.reverse ++ (a :: rest).eraseReps
  | a, [] => by simp [List.eraseReps, List.eraseRepsBy, List.eraseRepsBy.loop]
  | a, b :: rest => by
      simp only [List.eraseReps, List.eraseRepsBy, List.eraseRepsBy.loop]
      split
      · exact eraseReps_loop acc a rest
      · rw [eraseReps_loop (a :: acc) b rest, eraseReps_loop [a] b rest]
        simp

variable [LawfulBEq α]

/-- Of two equal neighbours one is kept. -/
theorem eraseReps_cons_self (a : α) (rest : List α) :
    (a :: a :: rest).eraseReps = (a :: rest).eraseReps := by
  simp [List.eraseReps, List.eraseRepsBy, List.eraseRepsBy.loop]

theorem eraseReps_cons_of_ne {a b : α} (ne : a ≠ b) (rest : List α) :
    (a :: b :: rest).eraseReps = a :: (b :: rest).eraseReps := by
  have other : (a == b) = false := by simpa using ne
  rw [List.eraseReps, List.eraseRepsBy, List.eraseRepsBy.loop, other, eraseReps_loop [a] b rest]
  rfl

theorem mem_eraseReps {a : α} : ∀ {as : List α}, a ∈ as.eraseReps ↔ a ∈ as
  | [] => Iff.rfl
  | [b] => Iff.rfl
  | b :: c :: rest => by
      have ih : a ∈ (c :: rest).eraseReps ↔ a ∈ c :: rest := mem_eraseReps
      by_cases same : b = c
      · rw [same, eraseReps_cons_self, ih]
        simp
      · rw [eraseReps_cons_of_ne same, List.mem_cons, ih, List.mem_cons (a := a) (b := b)]

end

/-- What is left of sorted texts is in strictly increasing order. -/
theorem eraseReps_ascending : ∀ {texts : List Text}, texts.Pairwise (fun a b => ¬b < a) →
    texts.eraseReps.Pairwise (· < ·)
  | [], _ => List.Pairwise.nil
  | [a], _ => List.pairwise_singleton _ a
  | a :: b :: rest, sorted => by
      obtain ⟨first, others⟩ := List.pairwise_cons.mp sorted
      have ih := eraseReps_ascending others
      by_cases same : a = b
      · rw [same, eraseReps_cons_self]
        exact ih
      · rw [eraseReps_cons_of_ne same]
        refine List.pairwise_cons.mpr ⟨fun c member => ?_, ih⟩
        have less : a < b := Std.lt_of_le_of_ne (List.not_lt.mp (first b List.mem_cons_self)) same
        rcases List.mem_cons.mp (mem_eraseReps.mp member) with rfl | later
        · exact less
        · exact Std.lt_of_lt_of_le less (List.not_lt.mp ((List.pairwise_cons.mp others).1 c later))

/-! ## Candidates -/

/-- The candidates for a stem are the reserved words and the names that begin with it. -/
theorem mem_candidates {stem word : Text} {names : List Text} :
    word ∈ candidates stem names ↔ (word ∈ Token.keywords ∨ word ∈ names) ∧ stem <+: word := by
  rw [candidates, mem_eraseReps, List.mem_mergeSort, List.mem_filter, List.mem_append, Text.startsWith,
    List.isPrefixOf_iff_prefix]

/-- They are listed in increasing order, each once. -/
theorem candidates_ascending (stem : Text) (names : List Text) :
    (candidates stem names).Pairwise (· < ·) := by
  apply eraseReps_ascending
  have notAfter : ∀ a b : Text, (!decide (b < a)) = true ↔ a ≤ b := fun a b => by
    rw [Bool.not_eq_true', decide_eq_false_iff_not, List.not_lt]
  refine (List.pairwise_mergeSort ?_ ?_ _).imp fun sorted => List.not_lt.mpr ((notAfter _ _).mp sorted)
  · intro a b c first second
    rw [notAfter] at first second ⊢
    exact List.le_trans first second
  · intro a b
    rw [Bool.or_eq_true, notAfter, notAfter]
    exact List.le_total a b

end LoopScript.Console
