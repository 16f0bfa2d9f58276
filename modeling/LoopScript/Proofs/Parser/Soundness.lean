/-
# LoopScript.Proofs.Parser.Soundness — what is read without a diagnostic is in the grammar

Each function of `LoopScript.Tree.Parser` that gives a value has taken a front part of its tokens, and
that part is derivable in `LoopScript.Proofs.Grammar` with the value as its tree.

For expressions the invariant is carried by `climb`: what it has so far is an expression of some
stratum, and the operator ahead binds no more tightly than that stratum does (`Stops`). An operator
that is taken loosens the stratum to its own level, and the operand behind it was read until an
operator of that level or a looser one. `Stratum.above rank` is the stratum that climbing at `rank`
reaches.

For statements the point is that nothing is dropped in silence: a statement that leaves no node and
no diagnostic is a lone semicolon (`statement_sound`).
-/
import LoopScript.Proofs.Grammar

namespace LoopScript

set_option autoImplicit false

namespace Level

theorem rank_pos (level : Level) : 0 < level.rank := by cases level <;> decide

theorem rank_le_four (level : Level) : level.rank ≤ 4 := by cases level <;> decide

end Level

namespace Grammar

/-- The stratum of the expressions whose operators bind more tightly than `rank`. -/
def Stratum.above : Nat → Stratum
  | 0 => .binary .boolean
  | 1 => .binary .comparison
  | 2 => .binary .additive
  | 3 => .binary .multiplicative
  | _ + 4 => .negated

theorem above_rank (level : Level) : Stratum.above level.rank = operandOf level := by
  cases level <;> rfl

theorem above_rank_pred (level : Level) : Stratum.above (level.rank - 1) = .binary level := by
  cases level <;> rfl

theorem Expression.loosen_one {ts : List Token} {e : Expr} :
    ∀ {n : Nat}, Expression (.above (n + 1)) ts e → Expression (.above n) ts e
  | 0, tight => .operand tight
  | 1, tight => .operand tight
  | 2, tight => .operand tight
  | 3, tight => .operand tight
  | _ + 4, tight => tight

/-- An expression of a tighter stratum is one of a looser stratum. -/
theorem Expression.loosen {m n : Nat} {ts : List Token} {e : Expr} (le : m ≤ n)
    (tight : Expression (.above n) ts e) : Expression (.above m) ts e := by
  induction le with
  | refl => exact tight
  | step _ ih => exact ih tight.loosen_one

/-- No operator that binds more tightly than `rank` comes first. -/
def Stops (rank : Nat) (ts : List Token) : Prop :=
  ∀ t ∈ ts.head?, ∀ op level, t.kind = .operator op → op.level? = some level → level.rank ≤ rank

end Grammar

open Grammar

theorem Reply.andThen_eq_ok {α β : Type} {r : Reply α} {next : α → List Token → Reply β}
    {value : β} {rest : List Token} (done : r.andThen next = .ok value rest) :
    ∃ first between, r = .ok first between ∧ next first between = .ok value rest := by
  cases r with
  | ok first between => exact ⟨first, between, rfl, done⟩
  | fail error between => simp [Reply.andThen] at done
  | exhausted => simp [Reply.andThen] at done

namespace Parser

/-! ## Tokens -/

theorem constant_iff_literalKind? {k : Token.Kind} {kind : LiteralKind} :
    Constant k kind ↔ literalKind? k = some kind := by
  constructor
  · rintro ⟨⟩ <;> rfl
  · intro found
    cases k <;> simp only [literalKind?, Option.some.injEq, reduceCtorEq] at found <;>
      subst found <;> constructor

theorem operator?_eq_some {t : Token} {op : Operator} {level : Level} :
    operator? t = some (op, level) ↔ t.kind = .operator op ∧ op.level? = some level := by
  unfold operator?
  split
  · next op' same =>
      rw [same, Option.map_eq_some_iff]
      constructor
      · rintro ⟨level', found, pair⟩
        cases pair
        exact ⟨rfl, found⟩
      · rintro ⟨kinds, found⟩
        cases kinds
        exact ⟨level, found, rfl⟩
  · next other =>
      constructor
      · intro found
        cases found
      · rintro ⟨kinds, -⟩
        exact absurd kinds (other op)

theorem close_eq_ok {α : Type} {stop : Position} {value found : α} {ts rest : List Token}
    (done : close stop value ts = .ok found rest) :
    found = value ∧ ∃ closing, ts = closing :: rest ∧ closing.kind = .closeParen := by
  cases ts with
  | nil => simp [close] at done
  | cons t after =>
      simp only [close] at done
      split at done
      · next kind =>
          cases done
          exact ⟨rfl, t, rfl, kind⟩
      · cases done

/-! ## Expressions -/

variable {stop : Position}

mutual

theorem operand_sound : ∀ {budget : Nat} {ts rest : List Token} {e : Expr},
    operand stop budget ts = .ok e rest → ∃ taken, ts = taken ++ rest ∧ Expression .negated taken e
  | 0, _, _, _, done => by simp [operand] at done
  | _ + 1, [], _, _, done => by simp [operand] at done
  | budget + 1, t :: ts, rest, e, done => by
      simp only [operand] at done
      split at done
      · next kind found =>
          cases done
          exact ⟨[t], rfl, .plain (.constant (constant_iff_literalKind?.mpr found))⟩
      · next kind _ =>
          split at done
          · next opening after =>
              split at done
              · next parenthesis =>
                  obtain ⟨args, between, read, same⟩ := Reply.andThen_eq_ok done
                  cases same
                  obtain ⟨taken, rfl, derived⟩ := arguments_sound read kind parenthesis
                  exact ⟨_, rfl, .plain (.call derived)⟩
              · cases done
                exact ⟨[t], rfl, .plain (.name kind)⟩
          · cases done
            exact ⟨[t], rfl, .plain (.name kind)⟩
      · next kind _ =>
          obtain ⟨inner, between, read, closed⟩ := Reply.andThen_eq_ok done
          obtain ⟨rfl, closing, rfl, parenthesis⟩ := close_eq_ok closed
          obtain ⟨taken, rfl, derived, -⟩ := expression_sound read
          exact ⟨t :: taken ++ [closing], by simp, .plain (.group kind derived parenthesis)⟩
      · next kind _ =>
          obtain ⟨inner, between, read, same⟩ := Reply.andThen_eq_ok done
          cases same
          obtain ⟨taken, rfl, derived⟩ := operand_sound read
          exact ⟨t :: taken, rfl, .negation kind derived⟩
      · cases done

theorem expression_sound : ∀ {budget rank : Nat} {ts rest : List Token} {e : Expr},
    expression stop budget rank ts = .ok e rest →
      ∃ taken, ts = taken ++ rest ∧ Expression (.above rank) taken e ∧ Stops rank rest
  | 0, _, _, _, _, done => by simp [expression] at done
  | budget + 1, rank, ts, rest, e, done => by
      simp only [expression] at done
      obtain ⟨left, between, read, climbed⟩ := Reply.andThen_eq_ok done
      obtain ⟨first, rfl, derived⟩ := operand_sound read
      -- An operand is tighter than any operator, so climbing may start at whatever rank is wanted.
      have tight : Expression (.above (rank + 4)) first left := derived
      have stops : Stops (rank + 4 + 1) between := fun _ _ _ level _ _ =>
        Nat.le_trans level.rank_le_four (by omega)
      obtain ⟨taken, rfl, whole, stopped⟩ := climb_sound climbed (by omega) tight stops
      exact ⟨first ++ taken, (List.append_assoc ..).symm, whole, stopped⟩

theorem climb_sound : ∀ {budget rank n : Nat} {left e : Expr} {ls ts rest : List Token},
    climb stop budget rank left ts = .ok e rest → rank ≤ n → Expression (.above n) ls left →
      Stops (n + 1) ts →
      ∃ taken, ts = taken ++ rest ∧ Expression (.above rank) (ls ++ taken) e ∧ Stops rank rest
  | 0, _, _, _, _, _, _, _, done, _, _, _ => by simp [climb] at done
  | _ + 1, _, _, _, _, ls, [], _, done, le, derived, _ => by
      cases done
      exact ⟨[], rfl, by simpa using derived.loosen le, fun _ member => by cases member⟩
  | budget + 1, rank, n, left, e, ls, t :: ts, rest, done, le, derived, stops => by
      simp only [climb] at done
      split at done
      · next op level found =>
          obtain ⟨kind, known⟩ := operator?_eq_some.mp found
          have bound : level.rank ≤ n + 1 := stops t rfl op level kind known
          split at done
          · next tighter =>
              obtain ⟨right, between, read, climbed⟩ := Reply.andThen_eq_ok done
              obtain ⟨rs, rfl, operandDerived, stopped⟩ := expression_sound read
              have leftDerived : Expression (.binary level) ls left := by
                rw [← above_rank_pred]
                exact derived.loosen (by omega)
              rw [above_rank] at operandDerived
              have joined := Expression.operation kind known leftDerived operandDerived
              rw [← above_rank_pred] at joined
              have again : level.rank - 1 + 1 = level.rank := by have := level.rank_pos; omega
              obtain ⟨taken, rfl, whole, last⟩ :=
                climb_sound climbed (by omega) joined (by rw [again]; exact stopped)
              exact ⟨t :: rs ++ taken, by simp, by simpa using whole, last⟩
          · next looser =>
              cases done
              refine ⟨[], rfl, by simpa using derived.loosen le, ?_⟩
              rintro _ ⟨⟩ op' level' kind' known'
              rw [kind] at kind'
              cases kind'
              rw [known] at known'
              cases known'
              omega
      · next none =>
          cases done
          refine ⟨[], rfl, by simpa using derived.loosen le, ?_⟩
          rintro _ ⟨⟩ op level kind known
          rw [operator?_eq_some.mpr ⟨kind, known⟩] at none
          cases none

theorem arguments_sound : ∀ {budget : Nat} {name opening : Token} {ts rest : List Token}
    {args : List Expr}, arguments stop budget ts = .ok args rest → name.kind = .identifier →
      opening.kind = .openParen →
      ∃ taken, ts = taken ++ rest ∧ Call (name :: opening :: taken) name args
  | 0, _, _, _, _, _, done, _, _ => by simp [arguments] at done
  | _ + 1, _, _, [], _, _, done, _, _ => by simp [arguments] at done
  | budget + 1, name, opening, t :: ts, rest, args, done, identifier, parenthesis => by
      simp only [arguments] at done
      split at done
      · next closing =>
          cases done
          exact ⟨[t], rfl, .empty identifier parenthesis closing⟩
      · obtain ⟨taken, closing, same, kind, derived⟩ := moreArguments_sound done
        exact ⟨taken ++ [closing], by simpa using same, .arguments identifier parenthesis derived kind⟩

theorem moreArguments_sound : ∀ {budget : Nat} {ts rest : List Token} {args : List Expr},
    moreArguments stop budget ts = .ok args rest →
      ∃ taken closing, ts = taken ++ closing :: rest ∧ closing.kind = .closeParen ∧
        Expressions taken args
  | 0, _, _, _, done => by simp [moreArguments] at done
  | budget + 1, ts, rest, args, done => by
      simp only [moreArguments] at done
      obtain ⟨e, between, read, after⟩ := Reply.andThen_eq_ok done
      obtain ⟨first, rfl, derived, -⟩ := expression_sound read
      have last : close stop [e] between = .ok args rest →
          ∃ taken closing, first ++ between = taken ++ closing :: rest ∧
            closing.kind = .closeParen ∧ Expressions taken args := by
        intro closed
        obtain ⟨rfl, closing, rfl, kind⟩ := close_eq_ok closed
        exact ⟨first, closing, rfl, kind, .last derived⟩
      split at after
      · next t others =>
          split at after
          · next comma =>
              obtain ⟨es, behind, readMore, same⟩ := Reply.andThen_eq_ok after
              cases same
              obtain ⟨taken, closing, rfl, kind, more⟩ := moreArguments_sound readMore
              exact ⟨first ++ t :: taken, closing, by simp, kind, .more derived comma more⟩
          · exact last after
      · exact last after

end

/-! ## Statements -/

/-- A statement read as an expression would be and without a diagnostic has a value. -/
theorem ofReply_eq_some {α β : Type} {r : Reply α} {make : α → β} {reading : Reading β}
    (done : Reading.ofReply r make = some reading) (clean : reading.errors = []) :
    ∃ value, r = .ok value reading.rest ∧ reading.value = some (make value) := by
  cases r with
  | ok value rest =>
      cases done
      exact ⟨value, rfl, rfl⟩
  | fail error rest =>
      cases done
      cases clean
  | exhausted => cases done

mutual

theorem statement_sound : ∀ {budget : Nat} {t : Token} {ts : List Token} {r : Reading Stmt},
    statement stop budget (t :: ts) = some r → r.errors = [] →
      ∃ taken, t :: ts = taken ++ r.rest ∧ Line taken r.value.toList
  | 0, _, _, _, done, _ => by simp [statement] at done
  | budget + 1, t, ts, r, done, clean => by
      simp only [statement] at done
      split at done
      · next kind =>
          cases done
          exact ⟨[t], rfl, .lone kind⟩
      · next kind =>
          obtain ⟨inner, read, rfl⟩ := Option.map_eq_some_iff.mp done
          obtain ⟨taken, c, rfl, value, derived⟩ := clause_sound read clean
          rw [value]
          exact ⟨t :: taken, rfl, .loop kind derived⟩
      · next kind =>
          obtain ⟨inner, read, rfl⟩ := Option.map_eq_some_iff.mp done
          obtain ⟨taken, c, rfl, value, derived⟩ := clause_sound read clean
          rw [value]
          exact ⟨t :: taken, rfl, .branch kind derived⟩
      · next kind =>
          split at done
          · next sign after =>
              split at done
              · next equals =>
                  obtain ⟨e, read, value⟩ := ofReply_eq_some done clean
                  obtain ⟨taken, rfl, derived, -⟩ := expression_sound read
                  rw [value]
                  refine ⟨t :: sign :: taken, rfl, ?_⟩
                  simpa using Line.assignment kind equals derived .nothing
              · split at done
                · next parenthesis =>
                    obtain ⟨args, read, value⟩ := ofReply_eq_some done clean
                    obtain ⟨taken, rfl, derived⟩ := arguments_sound read kind parenthesis
                    rw [value]
                    refine ⟨t :: sign :: taken, rfl, ?_⟩
                    simpa using Line.call derived .nothing
                · cases done
                  cases clean
          · cases done
            cases clean
      · cases done
        cases clean

theorem statements_sound : ∀ {nested : Bool} {budget : Nat} {ts : List Token}
    {r : Reading (List Stmt)}, statements stop nested budget ts = some r → r.errors = [] →
      ∃ taken p, ts = taken ++ r.rest ∧ r.value = some p ∧ Lines taken p ∧
        (r.rest = [] ∨ nested = true ∧ ∃ closing after, r.rest = closing :: after ∧
          closing.kind = .closeBrace)
  | _, 0, _, _, done, _ => by simp [statements] at done
  | _, _ + 1, [], _, done, _ => by
      cases done
      exact ⟨[], [], rfl, rfl, .nil, .inl rfl⟩
  | nested, budget + 1, t :: ts, r, done, clean => by
      simp only [statements] at done
      split at done
      · next brace =>
          cases done
          exact ⟨[], [], rfl, rfl, .nil, .inr ⟨brace.1, t, ts, rfl, brace.2⟩⟩
      · obtain ⟨one, readOne, rest⟩ := Option.bind_eq_some_iff.mp done
        obtain ⟨more, readMore, same⟩ := Option.bind_eq_some_iff.mp rest
        cases same
        obtain ⟨cleanOne, cleanMore⟩ := List.append_eq_nil_iff.mp clean
        obtain ⟨first, split, line⟩ := statement_sound readOne cleanOne
        obtain ⟨taken, p, follows, value, lines, ending⟩ := statements_sound readMore cleanMore
        refine ⟨first ++ taken, one.value.toList ++ p, ?_, by rw [value]; rfl, .cons line lines, ending⟩
        rw [split, follows, List.append_assoc]

theorem block_sound : ∀ {budget : Nat} {opening : Token} {ts : List Token}
    {r : Reading (List Stmt)}, block stop budget ts = some r → r.errors = [] →
      opening.kind = .openBrace →
      ∃ taken body, ts = taken ++ r.rest ∧ r.value = some body ∧
        Block (opening :: taken) body opening.pos
  | 0, _, _, _, done, _, _ => by simp [block] at done
  | budget + 1, opening, ts, r, done, clean, brace => by
      simp only [block] at done
      obtain ⟨body, read, rest⟩ := Option.bind_eq_some_iff.mp done
      split at rest
      · next closing after follows =>
          cases rest
          obtain ⟨taken, p, rfl, value, lines, ending⟩ := statements_sound read clean
          rw [follows] at ending
          obtain ⟨-, _, _, same, kind⟩ := ending.resolve_left (List.cons_ne_nil _ _)
          cases same
          exact ⟨taken ++ [closing], p, by simp [follows], value, .braces brace lines kind⟩
      · cases rest
        exact absurd (List.append_eq_nil_iff.mp clean).2 (List.cons_ne_nil _ _)

theorem clause_sound : ∀ {budget : Nat} {ts : List Token} {r : Reading Clause},
    clause stop budget ts = some r → r.errors = [] →
      ∃ taken c, ts = taken ++ r.rest ∧ r.value = some c ∧ Grammar.Clause taken c
  | 0, _, _, done, _ => by simp [clause] at done
  | budget + 1, ts, r, done, clean => by
      simp only [clause] at done
      split at done
      · cases done
      · cases done
        cases clean
      · next condition t between read =>
          obtain ⟨first, rfl, derived, -⟩ := expression_sound read
          split at done
          · next brace =>
              obtain ⟨body, readBody, rest⟩ := Option.bind_eq_some_iff.mp done
              split at rest
              · next missing =>
                  cases rest
                  obtain ⟨_, _, _, value, -⟩ := block_sound readBody clean brace
                  rw [missing] at value
                  cases value
              · next stmts present =>
                  have plain : body.errors = [] → ∃ taken,
                      between = taken ++ body.rest ∧ Block (t :: taken) stmts t.pos := by
                    intro cleanBody
                    obtain ⟨taken, p, split, value, derivedBody⟩ := block_sound readBody cleanBody brace
                    rw [present] at value
                    cases value
                    exact ⟨taken, split, derivedBody⟩
                  split at rest
                  · next word after follows =>
                      split at rest
                      · next other =>
                          obtain ⟨branch, readBranch, same⟩ := Option.bind_eq_some_iff.mp rest
                          cases same
                          obtain ⟨cleanBody, cleanBranch⟩ := List.append_eq_nil_iff.mp clean
                          obtain ⟨taken, rfl, derivedBody⟩ := plain cleanBody
                          obtain ⟨last, s, rfl, value, derivedBranch⟩ :=
                            alternative_sound readBranch cleanBranch
                          refine ⟨first ++ t :: taken ++ word :: last, _, ?_, by rw [value]; rfl,
                            .otherwise derived derivedBody other derivedBranch⟩
                          simp [follows]
                      · cases rest
                        obtain ⟨taken, rfl, derivedBody⟩ := plain clean
                        exact ⟨first ++ t :: taken, _, by simp, rfl, .plain derived derivedBody⟩
                  · cases rest
                    obtain ⟨taken, rfl, derivedBody⟩ := plain clean
                    exact ⟨first ++ t :: taken, _, by simp, rfl, .plain derived derivedBody⟩
          · cases done
            cases clean
      · cases done
        cases clean

theorem alternative_sound : ∀ {budget : Nat} {ts : List Token} {r : Reading Stmt},
    alternative stop budget ts = some r → r.errors = [] →
      ∃ taken s, ts = taken ++ r.rest ∧ r.value = some s ∧ Alternative taken s
  | 0, _, _, done, _ => by simp [alternative] at done
  | _ + 1, [], _, done, clean => by
      cases done
      cases clean
  | budget + 1, t :: ts, r, done, clean => by
      simp only [alternative] at done
      split at done
      · next kind =>
          obtain ⟨inner, read, rfl⟩ := Option.map_eq_some_iff.mp done
          obtain ⟨taken, body, rfl, value, derived⟩ := block_sound read clean kind
          exact ⟨t :: taken, _, rfl, by rw [value]; rfl, .block derived⟩
      · next kind =>
          obtain ⟨inner, read, rfl⟩ := Option.map_eq_some_iff.mp done
          obtain ⟨taken, c, rfl, value, derived⟩ := clause_sound read clean
          exact ⟨t :: taken, _, rfl, by rw [value]; rfl, .branch kind derived⟩
      · cases done
        cases clean

end

end Parser

end LoopScript
