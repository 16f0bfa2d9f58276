/-
# LoopScript.Proofs.Parser.Budget — the budget of the reader is never spent

Every function of `LoopScript.Tree.Parser` lowers its budget by one at each call, and at most four
calls follow one another before a token is taken. So four calls for each token, and a few more, are
enough, for programs and for sources that are none: `statements_answers` says it for a whole
program, and `readTokens_eq` that the default of `Program.readTokens` is never used.

The count rests on what each function leaves behind. A value always leaves fewer tokens than there
were (`Reply.Advances`), and a statement does so even when it fails (`statement_answers`); this is
why reading always comes to an end.
-/
import LoopScript.Tree.Parser

namespace LoopScript

set_option autoImplicit false

/-- The budget was not spent, a value leaves fewer than `n` tokens, and a failure at most `n`. -/
def Reply.Advances {α : Type} (n : Nat) : Reply α → Prop
  | .ok _ rest => rest.length < n
  | .fail _ rest => rest.length ≤ n
  | .exhausted => False

/-- The budget was not spent, and at most `n` tokens are left. -/
def Reading.Answers {α : Type} (n : Nat) (r : Option (Reading α)) : Prop :=
  ∃ reading, r = some reading ∧ reading.rest.length ≤ n

namespace Reply

variable {α β : Type}

theorem Advances.mono {m n : Nat} {r : Reply α} (advances : r.Advances m) (le : m ≤ n) :
    r.Advances n := by
  cases r with
  | ok value rest => exact Nat.lt_of_lt_of_le advances le
  | fail error rest => exact Nat.le_trans advances le
  | exhausted => exact advances

theorem Advances.andThen {m n : Nat} {r : Reply α} {next : α → List Token → Reply β}
    (advances : r.Advances m) (le : m ≤ n)
    (after : ∀ value rest, rest.length < m → (next value rest).Advances n) :
    (r.andThen next).Advances n := by
  cases r with
  | ok value rest => exact after value rest advances
  | fail error rest => exact Nat.le_trans advances le
  | exhausted => exact advances

end Reply

theorem Reading.Answers.mono {α : Type} {m n : Nat} {r : Option (Reading α)}
    (answers : Answers m r) (le : m ≤ n) : Answers n r := by
  obtain ⟨reading, rfl, short⟩ := answers
  exact ⟨reading, rfl, Nat.le_trans short le⟩

namespace Parser

variable (stop : Position)

theorem close_advances {α : Type} (value : α) (ts : List Token) :
    (close stop value ts).Advances ts.length := by
  cases ts with
  | nil => exact Nat.le_refl _
  | cons t rest =>
      simp only [close]
      split
      · exact Nat.lt_succ_self _
      · exact Nat.le_refl _

/-! ## Expressions -/

mutual

theorem operand_advances : ∀ (budget : Nat) (ts : List Token), 4 * ts.length + 1 ≤ budget →
    (operand stop budget ts).Advances ts.length
  | 0, _, enough => absurd enough (Nat.not_succ_le_zero _)
  | _ + 1, [], _ => Nat.le_refl _
  | budget + 1, t :: ts, enough => by
      have room : 4 * ts.length + 4 ≤ budget := by
        simp only [List.length_cons] at enough
        omega
      have shorter : ts.length < (t :: ts).length := Nat.lt_succ_self _
      simp only [operand]
      split
      · exact shorter
      · split
        · next _ rest =>
            split
            · simp only [List.length_cons] at room ⊢
              refine (arguments_advances budget rest (by omega)).andThen (by omega) ?_
              intro _ _ less
              exact Nat.lt_of_lt_of_le less (by omega)
            · exact shorter
        · exact shorter
      · refine (expression_advances budget 0 ts (by omega)).andThen (Nat.le_of_lt shorter) ?_
        intro e rest less
        exact (close_advances stop e rest).mono (Nat.le_of_lt (Nat.lt_trans less shorter))
      · refine (operand_advances budget ts (by omega)).andThen (Nat.le_of_lt shorter) ?_
        exact fun _ _ less => Nat.lt_trans less shorter
      · exact Nat.le_of_lt shorter

theorem expression_advances : ∀ (budget rank : Nat) (ts : List Token),
    4 * ts.length + 2 ≤ budget → (expression stop budget rank ts).Advances ts.length
  | 0, _, _, enough => absurd enough (Nat.not_succ_le_zero _)
  | budget + 1, rank, ts, enough => by
      simp only [expression]
      refine (operand_advances budget ts (by omega)).andThen (Nat.le_refl _) ?_
      intro left rest less
      exact (climb_advances budget rank left rest (by omega)).mono less

theorem climb_advances : ∀ (budget rank : Nat) (left : Expr) (ts : List Token),
    4 * ts.length + 1 ≤ budget → (climb stop budget rank left ts).Advances (ts.length + 1)
  | 0, _, _, _, enough => absurd enough (Nat.not_succ_le_zero _)
  | _ + 1, _, _, [], _ => Nat.lt_succ_self _
  | budget + 1, rank, left, t :: ts, enough => by
      simp only [List.length_cons] at enough ⊢
      simp only [climb]
      split
      · next op level _ =>
          split
          · refine (expression_advances budget level.rank ts (by omega)).andThen (by omega) ?_
            intro right rest less
            exact (climb_advances budget rank _ rest (by omega)).mono (by omega)
          · exact Nat.lt_succ_self _
      · exact Nat.lt_succ_self _

theorem arguments_advances : ∀ (budget : Nat) (ts : List Token), 4 * ts.length + 4 ≤ budget →
    (arguments stop budget ts).Advances ts.length
  | 0, _, enough => absurd enough (Nat.not_succ_le_zero _)
  | _ + 1, [], _ => Nat.le_refl _
  | budget + 1, t :: ts, enough => by
      simp only [arguments]
      split
      · exact Nat.lt_succ_self _
      · exact moreArguments_advances budget (t :: ts) (by omega)

theorem moreArguments_advances : ∀ (budget : Nat) (ts : List Token), 4 * ts.length + 3 ≤ budget →
    (moreArguments stop budget ts).Advances ts.length
  | 0, _, enough => absurd enough (Nat.not_succ_le_zero _)
  | budget + 1, ts, enough => by
      simp only [moreArguments]
      refine (expression_advances budget 0 ts (by omega)).andThen (Nat.le_refl _) ?_
      intro e rest less
      cases rest with
      | nil => exact (close_advances stop [e] []).mono (Nat.le_of_lt less)
      | cons t after =>
          dsimp only
          split
          · simp only [List.length_cons] at less
            refine (moreArguments_advances budget after (by omega)).andThen (by omega) ?_
            exact fun _ _ left => Nat.lt_trans left (by omega)
          · exact (close_advances stop [e] (t :: after)).mono (Nat.le_of_lt less)

end

/-! ## Statements -/

theorem ofReply_answers {α β : Type} {n : Nat} {r : Reply α} (make : α → β)
    (advances : r.Advances n) : Reading.Answers n (Reading.ofReply r make) := by
  cases r with
  | ok value rest => exact ⟨_, rfl, Nat.le_of_lt advances⟩
  | fail error rest => exact ⟨_, rfl, advances⟩
  | exhausted => exact advances.elim

theorem map_answers {α β : Type} {n : Nat} {r : Option (Reading α)} (f : Option α → Option β)
    (answers : Reading.Answers n r) :
    Reading.Answers n (r.map fun r => { r with value := f r.value }) := by
  obtain ⟨reading, rfl, short⟩ := answers
  exact ⟨_, rfl, short⟩

mutual

/-- A statement takes at least one token, also when it fails. -/
theorem statement_answers : ∀ (budget : Nat) (t : Token) (ts : List Token),
    4 * ts.length + 5 ≤ budget → Reading.Answers ts.length (statement stop budget (t :: ts))
  | 0, _, _, enough => absurd enough (Nat.not_succ_le_zero _)
  | budget + 1, t, ts, enough => by
      simp only [statement]
      split
      · exact ⟨_, rfl, Nat.le_refl _⟩
      · exact map_answers _ (clause_answers budget ts (by omega))
      · exact map_answers _ (clause_answers budget ts (by omega))
      · split
        · next rest =>
            simp only [List.length_cons] at enough ⊢
            split
            · refine (ofReply_answers _ (expression_advances stop budget 0 rest ?_)).mono ?_ <;> omega
            · split
              · refine (ofReply_answers _ (arguments_advances stop budget rest ?_)).mono ?_ <;> omega
              · exact ⟨_, rfl, Nat.le_refl _⟩
        · exact ⟨_, rfl, Nat.le_refl _⟩
      · exact ⟨_, rfl, Nat.le_refl _⟩

theorem statements_answers (nested : Bool) : ∀ (budget : Nat) (ts : List Token),
    4 * ts.length + 2 ≤ budget → Reading.Answers ts.length (statements stop nested budget ts)
  | 0, _, enough => absurd enough (Nat.not_succ_le_zero _)
  | _ + 1, [], _ => ⟨_, rfl, Nat.le_refl _⟩
  | budget + 1, t :: ts, enough => by
      simp only [List.length_cons] at enough ⊢
      simp only [statements]
      split
      · exact ⟨_, rfl, Nat.le_refl _⟩
      · obtain ⟨one, found, short⟩ := statement_answers budget t ts (by omega)
        obtain ⟨more, rest, less⟩ := statements_answers nested budget one.rest (by omega)
        rw [found, Option.bind_eq_bind, Option.bind_some, rest]
        exact ⟨_, rfl, by dsimp only; omega⟩

theorem block_answers : ∀ (budget : Nat) (ts : List Token), 4 * ts.length + 3 ≤ budget →
    Reading.Answers ts.length (block stop budget ts)
  | 0, _, enough => absurd enough (Nat.not_succ_le_zero _)
  | budget + 1, ts, enough => by
      obtain ⟨body, found, short⟩ := statements_answers true budget ts (by omega)
      simp only [block, found, Option.bind_eq_bind, Option.bind_some]
      split
      · next rest same =>
          rw [same, List.length_cons] at short
          exact ⟨_, rfl, Nat.le_of_lt short⟩
      · exact ⟨_, rfl, Nat.zero_le _⟩

theorem clause_answers : ∀ (budget : Nat) (ts : List Token), 4 * ts.length + 3 ≤ budget →
    Reading.Answers ts.length (clause stop budget ts)
  | 0, _, enough => absurd enough (Nat.not_succ_le_zero _)
  | budget + 1, ts, enough => by
      have advances := expression_advances stop budget 0 ts (by omega)
      simp only [clause]
      split
      · next same => rw [same] at advances; exact advances.elim
      · next same => rw [same] at advances; exact ⟨_, rfl, advances⟩
      · next t rest same =>
          rw [same] at advances
          have less : rest.length + 1 < ts.length := advances
          split
          · obtain ⟨body, found, short⟩ := block_answers budget rest (by omega)
            simp only [found, Option.bind_eq_bind, Option.bind_some]
            split
            · exact ⟨_, rfl, by dsimp only; omega⟩
            · split
              · next after follows =>
                  rw [follows, List.length_cons] at short
                  split
                  · obtain ⟨other, last, fewer⟩ := alternative_answers budget after (by omega)
                    rw [last]
                    exact ⟨_, rfl, by dsimp only; omega⟩
                  · exact ⟨_, rfl, by dsimp only; rw [follows, List.length_cons]; omega⟩
              · exact ⟨_, rfl, by dsimp only; omega⟩
          · exact ⟨_, rfl, Nat.le_of_lt less⟩
      · exact ⟨_, rfl, Nat.zero_le _⟩

theorem alternative_answers : ∀ (budget : Nat) (ts : List Token), 4 * ts.length + 1 ≤ budget →
    Reading.Answers ts.length (alternative stop budget ts)
  | 0, _, enough => absurd enough (Nat.not_succ_le_zero _)
  | _ + 1, [], _ => ⟨_, rfl, Nat.le_refl _⟩
  | budget + 1, t :: ts, enough => by
      simp only [List.length_cons] at enough ⊢
      simp only [alternative]
      split
      · exact (map_answers _ (block_answers budget ts (by omega))).mono (Nat.le_succ _)
      · exact (map_answers _ (clause_answers budget ts (by omega))).mono (Nat.le_succ _)
      · exact ⟨_, rfl, Nat.le_succ _⟩

end

end Parser

/-- The reading of a program is what the statements give; the default is never used. -/
theorem Program.readTokens_eq (stop : Position) (ts : List Token) :
    Parser.statements stop false (readBudget ts.length) ts = some (readTokens stop ts) := by
  obtain ⟨reading, found, -⟩ :=
    Parser.statements_answers stop false (readBudget ts.length) ts (by unfold readBudget; omega)
  rw [readTokens, found, Option.getD_some]

end LoopScript
