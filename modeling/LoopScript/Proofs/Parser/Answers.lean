/-
# LoopScript.Proofs.Parser.Answers — an answer of the reader does not depend on its budget

The functions of `LoopScript.Tree.Parser` take a budget so that their recursion is plain. It decides only
whether there is an answer: one more unit leaves any answer as it is (`operand_stays` to
`alternative_stays`), so two budgets that are not spent give the same one (`Stays.unique`).

A function that looks at another one's answer goes on in the same way, whatever the budget was
(`Reply.Stays.andThen`, `Reading.Stays.bind`); the induction is on the budget.
-/
import LoopScript.Proofs.Parser.Places

namespace LoopScript

set_option autoImplicit false

/-! ## Answers with one more unit -/

/-- The answer `s` is the answer `r`, unless that says that the budget was spent. -/
def Stays {ρ : Type} (spent r s : ρ) : Prop := r ≠ spent → s = r

namespace Stays

variable {ρ : Type} {spent : ρ}

theorem refl (r : ρ) : Stays spent r r := fun _ => rfl

theorem of_spent (s : ρ) : Stays spent spent s := fun unspent => absurd rfl unspent

variable {F : Nat → ρ}

/-- What one more unit does not change, any larger budget does not change. -/
theorem eq_of_le (stays : ∀ b, Stays spent (F b) (F (b + 1))) {b c : Nat} (answered : F b ≠ spent)
    (le : b ≤ c) : F c = F b := by
  induction le with
  | refl => rfl
  | @step c _ ih =>
      have again : F c ≠ spent := ih ▸ answered
      exact (stays c again).trans ih

/-- Two budgets that are not spent give one answer. -/
theorem unique (stays : ∀ b, Stays spent (F b) (F (b + 1))) {b c : Nat} (first : F b ≠ spent)
    (second : F c ≠ spent) : F b = F c := by
  rcases Nat.le_total b c with le | le
  · exact (eq_of_le stays first le).symm
  · exact eq_of_le stays second le

end Stays

namespace Reply

variable {α β : Type}

/-- More budget leaves the reply as it is. -/
abbrev Stays (r s : Reply α) : Prop := LoopScript.Stays .exhausted r s

theorem Stays.andThen {r s : Reply α} {f g : α → List Token → Reply β} (first : r.Stays s)
    (after : ∀ value rest, (f value rest).Stays (g value rest)) : (r.andThen f).Stays (s.andThen g) := by
  cases r with
  | ok value rest =>
      have same : s = .ok value rest := first (by simp)
      rw [same]
      exact after value rest
  | fail error rest =>
      have same : s = .fail error rest := first (by simp)
      rw [same]
      exact .refl _
  | exhausted => exact .of_spent _

end Reply

namespace Reading

variable {α β : Type}

/-- More budget leaves the reading as it is. -/
abbrev Stays (r s : Option (Reading α)) : Prop := LoopScript.Stays none r s

theorem Stays.bind {r s : Option (Reading α)} {f g : Reading α → Option (Reading β)} (first : Stays r s)
    (after : ∀ reading, Stays (f reading) (g reading)) : Stays (r.bind f) (s.bind g) := by
  cases r with
  | some reading =>
      have same : s = some reading := first (by simp)
      rw [same]
      exact after reading
  | none => exact .of_spent _

theorem Stays.map {r s : Option (Reading α)} (f : Reading α → Reading β) (first : Stays r s) :
    Stays (r.map f) (s.map f) := by
  rw [Option.map_eq_bind, Option.map_eq_bind]
  exact first.bind fun _ => .refl _

theorem Stays.ofReply {r s : Reply α} (make : α → β) (first : r.Stays s) :
    Stays (Parser.Reading.ofReply r make) (Parser.Reading.ofReply s make) := by
  cases r with
  | ok value rest =>
      have same : s = .ok value rest := first (by simp)
      rw [same]
      exact .refl _
  | fail error rest =>
      have same : s = .fail error rest := first (by simp)
      rw [same]
      exact .refl _
  | exhausted => exact .of_spent _

end Reading

namespace Parser

variable (stop : Position)

/-! ## Expressions -/

mutual

theorem operand_stays : ∀ (budget : Nat) (ts : List Token),
    (operand stop budget ts).Stays (operand stop (budget + 1) ts)
  | 0, _ => .of_spent _
  | _ + 1, [] => .refl _
  | budget + 1, t :: ts => by
      -- Both sides look at the same tokens, so one split serves the two.
      simp only [operand]
      split
      · exact .refl _
      · split
        · next after rest =>
            split
            · exact (arguments_stays budget rest).andThen fun _ _ => .refl _
            · exact .refl _
        · exact .refl _
      · exact (expression_stays budget 0 ts).andThen fun _ _ => .refl _
      · exact (operand_stays budget ts).andThen fun _ _ => .refl _
      · exact .refl _

theorem expression_stays : ∀ (budget rank : Nat) (ts : List Token),
    (expression stop budget rank ts).Stays (expression stop (budget + 1) rank ts)
  | 0, _, _ => .of_spent _
  | budget + 1, rank, ts => by
      simp only [expression]
      exact (operand_stays budget ts).andThen fun left rest => climb_stays budget rank left rest

theorem climb_stays : ∀ (budget rank : Nat) (left : Expr) (ts : List Token),
    (climb stop budget rank left ts).Stays (climb stop (budget + 1) rank left ts)
  | 0, _, _, _ => .of_spent _
  | _ + 1, _, _, [] => .refl _
  | budget + 1, rank, left, t :: ts => by
      simp only [climb]
      split
      · next op level _ =>
          split
          · exact (expression_stays budget level.rank ts).andThen fun right rest =>
              climb_stays budget rank _ rest
          · exact .refl _
      · exact .refl _

theorem arguments_stays : ∀ (budget : Nat) (ts : List Token),
    (arguments stop budget ts).Stays (arguments stop (budget + 1) ts)
  | 0, _ => .of_spent _
  | _ + 1, [] => .refl _
  | budget + 1, t :: ts => by
      simp only [arguments]
      split
      · exact .refl _
      · exact moreArguments_stays budget (t :: ts)

theorem moreArguments_stays : ∀ (budget : Nat) (ts : List Token),
    (moreArguments stop budget ts).Stays (moreArguments stop (budget + 1) ts)
  | 0, _ => .of_spent _
  | budget + 1, ts => by
      simp only [moreArguments]
      refine (expression_stays budget 0 ts).andThen fun e rest => ?_
      cases rest with
      | nil => exact .refl _
      | cons t after =>
          dsimp only
          split
          · exact (moreArguments_stays budget after).andThen fun _ _ => .refl _
          · exact .refl _

end

/-! ## Statements -/

mutual

theorem statement_stays : ∀ (budget : Nat) (ts : List Token),
    Reading.Stays (statement stop budget ts) (statement stop (budget + 1) ts)
  | 0, _ => .of_spent _
  | _ + 1, [] => .refl _
  | budget + 1, t :: ts => by
      simp only [statement]
      split
      · exact .refl _
      · exact (clause_stays budget ts).map _
      · exact (clause_stays budget ts).map _
      · split
        · next after rest =>
            split
            · exact .ofReply _ (expression_stays stop budget 0 rest)
            · split
              · exact .ofReply _ (arguments_stays stop budget rest)
              · exact .refl _
        · exact .refl _
      · exact .refl _

theorem statements_stays (nested : Bool) : ∀ (budget : Nat) (ts : List Token),
    Reading.Stays (statements stop nested budget ts) (statements stop nested (budget + 1) ts)
  | 0, _ => .of_spent _
  | _ + 1, [] => .refl _
  | budget + 1, t :: ts => by
      simp only [statements]
      split
      · exact .refl _
      · refine (statement_stays budget (t :: ts)).bind fun one => ?_
        exact (statements_stays nested budget one.rest).bind fun _ => .refl _

theorem block_stays : ∀ (budget : Nat) (ts : List Token),
    Reading.Stays (block stop budget ts) (block stop (budget + 1) ts)
  | 0, _ => .of_spent _
  | budget + 1, ts => by
      simp only [block]
      exact (statements_stays true budget ts).bind fun _ => .refl _

theorem clause_stays : ∀ (budget : Nat) (ts : List Token),
    Reading.Stays (clause stop budget ts) (clause stop (budget + 1) ts)
  | 0, _ => .of_spent _
  | budget + 1, ts => by
      have condition := expression_stays stop budget 0 ts
      simp only [clause]
      cases read : expression stop budget 0 ts with
      | exhausted => exact .of_spent _
      | fail error rest =>
          rw [condition (by simp [read]), read]
          exact .refl _
      | ok e rest =>
          rw [condition (by simp [read]), read]
          cases rest with
          | nil => exact .refl _
          | cons t rest =>
              dsimp only
              split
              · refine (block_stays budget rest).bind fun body => ?_
                split
                · exact .refl _
                · split
                  · next after _ =>
                      split
                      · exact (alternative_stays budget after).bind fun _ => .refl _
                      · exact .refl _
                  · exact .refl _
              · exact .refl _

theorem alternative_stays : ∀ (budget : Nat) (ts : List Token),
    Reading.Stays (alternative stop budget ts) (alternative stop (budget + 1) ts)
  | 0, _ => .of_spent _
  | _ + 1, [] => .refl _
  | budget + 1, t :: ts => by
      simp only [alternative]
      split
      · exact (block_stays budget ts).map _
      · exact (clause_stays budget ts).map _
      · exact .refl _

end

end Parser

/-! ## What is left behind an answer -/

namespace Reply

variable {α β : Type}

/-- The tokens to go on with, if the budget was not spent. -/
def rest? : Reply α → Option (List Token)
  | .ok _ rest => some rest
  | .fail _ rest => some rest
  | .exhausted => none

theorem isSome_rest? {r : Reply α} : r.rest?.isSome = true ↔ r ≠ .exhausted := by
  cases r <;> simp [rest?]

/-- The second of two steps is taken only behind a value of the first. -/
theorem isSome_andThen {r : Reply α} {next : α → List Token → Reply β} :
    (r.andThen next).rest?.isSome = true ↔
      r.rest?.isSome = true ∧ ∀ value rest, r = .ok value rest → (next value rest).rest?.isSome = true := by
  cases r with
  | ok value rest =>
      constructor
      · intro answered
        refine ⟨rfl, ?_⟩
        rintro _ _ ⟨⟩
        exact answered
      · intro answered
        exact answered.2 value rest rfl
  | fail error rest =>
      constructor
      · intro _
        refine ⟨rfl, ?_⟩
        rintro _ _ ⟨⟩
      · exact fun _ => rfl
  | exhausted =>
      constructor
      · intro answered
        cases answered
      · intro answered
        cases answered.1

end Reply

theorem Reading.isSome_bind {α β : Type} {r : Option (Reading α)}
    {next : Reading α → Option (Reading β)} :
    (r.bind next).isSome = true ↔
      r.isSome = true ∧ ∀ reading, r = some reading → (next reading).isSome = true := by
  cases r with
  | some reading => simp
  | none => simp

theorem Reading.isSome_ofReply {α β : Type} {r : Reply α} {make : α → β} :
    (Parser.Reading.ofReply r make).isSome = true ↔ r.rest?.isSome = true := by
  cases r <;> simp [Parser.Reading.ofReply, Reply.rest?]

/-! ## Answers have a budget -/

section Budget

variable {α : Type} {stop : Position}

/-- A reply that advances was not spent. -/
theorem Reply.Advances.answered {n : Nat} {r : Reply α} (advances : r.Advances n) : r ≠ .exhausted := by
  rintro rfl
  exact advances

/-- What a reply leaves is an end of what it was given. -/
theorem Reply.Within.suffix {ts rest : List Token} {r : Reply α} (within : r.Within stop ts)
    (left : r.rest? = some rest) : rest <:+ ts := by
  cases r with
  | ok value behind =>
      cases left
      exact within
  | fail error behind =>
      cases left
      exact Diagnostic.Trail.suffix within
  | exhausted => cases left

variable {F : Nat → Reply α}

/-- A value leaves fewer tokens, whatever the budget was. -/
theorem Reply.length_lt_of_ok {m enough b : Nat} {value : α} {rest : List Token}
    (stays : ∀ b, (F b).Stays (F (b + 1))) (advances : (F enough).Advances m)
    (read : F b = .ok value rest) : rest.length < m := by
  have same : F enough = F b := Stays.unique stays advances.answered (by simp [read])
  rw [same, read] at advances
  exact advances

/-- What one budget has answered with a value, any other has that answers. -/
theorem Reply.ok_of_answered {b c : Nat} {value : α} {rest : List Token}
    (stays : ∀ b, (F b).Stays (F (b + 1))) (answered : (F b).rest?.isSome = true)
    (read : F c = .ok value rest) : F b = .ok value rest :=
  (Stays.unique stays (isSome_rest?.mp answered) (by simp [read])).trans read

theorem Reading.eq_of_answered {F : Nat → Option (Reading α)} {b c : Nat} {reading : Reading α}
    (stays : ∀ b, Stays (F b) (F (b + 1))) (answered : (F b).isSome = true)
    (read : F c = some reading) : F b = some reading :=
  (LoopScript.Stays.unique stays (Option.isSome_iff_ne_none.mp answered) (by simp [read])).trans read

/-- A reply that one budget is enough for is the same for all that are not smaller. -/
theorem Reply.answers {ts : List Token} {m n enough : Nat} (stays : ∀ b, (F b).Stays (F (b + 1)))
    (advances : (F enough).Advances m) (within : (F enough).Within stop ts) (le : enough ≤ n) :
    ∃ rest, rest <:+ ts ∧ ∀ b, n ≤ b → (F b).rest? = some rest := by
  obtain ⟨rest, left⟩ := Option.isSome_iff_exists.mp (Reply.isSome_rest?.mpr advances.answered)
  refine ⟨rest, within.suffix left, fun b more => ?_⟩
  rw [Stays.eq_of_le stays advances.answered (Nat.le_trans le more), left]

/-- A reading that one budget is enough for is the same for all that are not smaller. -/
theorem Reading.answers {ts : List Token} {m n enough : Nat} {F : Nat → Option (Reading α)}
    (stays : ∀ b, Stays (F b) (F (b + 1))) (answers : Answers m (F enough))
    (within : Within stop ts (F enough)) (le : enough ≤ n) :
    ∃ rest, rest <:+ ts ∧ ∀ b, n ≤ b → (F b).map Reading.rest = some rest := by
  obtain ⟨reading, found, -⟩ := answers
  refine ⟨reading.rest, (within reading found).suffix, fun b more => ?_⟩
  have answered : F enough ≠ none := by simp [found]
  rw [LoopScript.Stays.eq_of_le stays answered (Nat.le_trans le more), found, Option.map_some]

end Budget

end LoopScript
