/-
# LoopScript.Proofs.Parser.Locality — reading looks at one token beyond what it has taken

What a function of `LoopScript.Tree.Parser` answers is settled by the tokens it takes and the first one
behind them (`Settles`). A value stays the same value, whatever else stands behind. A failure is reported
at a token: the tokens in front of it can be completed to something that the function reads, and no
sequence that begins with these tokens and that one is read.

The tokens that complete a sequence come from the grammar: what was read so far is derivable
(`LoopScript.Proofs.Parser.Soundness`), and behind it an operand, a closing parenthesis or a block is put.
Budgets play no part: a settled answer holds for every budget that is not spent.
-/
import LoopScript.Proofs.Parser.Completeness

namespace LoopScript

set_option autoImplicit false

/-! ## Replies -/

namespace Reply

variable {α β : Type}

/-- Unless the budget was spent, the two replies are one; where to go on after a failure is left open. -/
def Follows : Reply α → Reply α → Prop
  | .ok value rest, s => s = .ok value rest
  | .fail error _, s => ∃ rest, s = .fail error rest
  | .exhausted, _ => True

theorem Follows.of_eq {r s : Reply α} (same : r = s) : r.Follows s := by
  subst same
  cases r with
  | ok value rest => rfl
  | fail error rest => exact ⟨rest, rfl⟩
  | exhausted => trivial

theorem Follows.trans {r s t : Reply α} (first : r.Follows s) (second : s.Follows t) : r.Follows t := by
  cases r with
  | ok value rest =>
      cases first
      exact second
  | fail error rest =>
      obtain ⟨_, rfl⟩ := first
      exact second
  | exhausted => trivial

/-- A reply that does not depend on the budget, unless there is none. -/
theorem follows_of_succ {F : Nat → Reply α} {r : Reply α} (spent : F 0 = .exhausted)
    (same : ∀ b, (F (b + 1)).Follows r) : ∀ b, (F b).Follows r
  | 0 => spent ▸ trivial
  | b + 1 => same b

def map (f : α → β) (r : Reply α) : Reply β := r.andThen fun value rest => .ok (f value) rest

theorem Follows.map {r s : Reply α} (f : α → β) (follows : r.Follows s) : (r.map f).Follows (s.map f) := by
  cases r with
  | ok value rest =>
      cases follows
      rfl
  | fail error rest =>
      obtain ⟨after, rfl⟩ := follows
      exact ⟨after, rfl⟩
  | exhausted => trivial

end Reply

namespace Parser

open Grammar

variable {stop : Position} {α β : Type}

/-! ## Settled replies -/

/-- The reply `r` to the tokens `ts` is settled by the tokens that were taken and the first one behind
them. After a failure, the tokens in front of the one it is reported at are the beginning of something of
the given shape, and with that one they are read as nothing. -/
def Settles (stop : Position) (shape : List Token → Prop) (parse : Nat → List Token → Reply α)
    (ts : List Token) : Reply α → Prop
  | .ok value rest => ∃ taken, ts = taken ++ rest ∧
      ∀ b behind, behind.head? = rest.head? → (parse b (taken ++ behind)).Follows (.ok value behind)
  | .fail error _ => ∃ front tail, ts = front ++ tail ∧ error.pos = placeOf stop tail ∧
      (∃ more, shape (front ++ more)) ∧
      ∀ b other, other.head? = tail.head? → ∀ value rest, parse b (front ++ other) ≠ .ok value rest
  | .exhausted => True

theorem head?_append_congr {xs ys zs : List Token} (same : ys.head? = zs.head?) :
    (xs ++ ys).head? = (xs ++ zs).head? := by
  rw [List.head?_append, List.head?_append, same]

def StartsWith (kind : Token.Kind) (ts : List Token) : Prop := ∃ t rest, ts = t :: rest ∧ t.kind = kind

theorem startsWith_of_head {kind : Token.Kind} {t : Token} {ts us : List Token}
    (heads : (t :: us).head? = ts.head?) (first : t.kind = kind) : StartsWith kind ts := by
  obtain ⟨rest, same⟩ := List.head?_eq_some_iff.mp heads.symm
  exact ⟨t, rest, same, first⟩

/-- After the tokens `front` reading goes on as `G` does. -/
theorem Settles.step {shape inner : List Token → Prop} {F G : Nat → List Token → Reply α}
    (front : List Token) {ts : List Token} {r s : Reply α} (settled : Settles stop inner G ts s)
    (follows : r.Follows s)
    (same : ∀ b us, us.head? = ts.head? → ∃ c, (F b (front ++ us)).Follows (G c us))
    (shapes : ∀ us, inner us → shape (front ++ us)) : Settles stop shape F (front ++ ts) r := by
  cases r with
  | exhausted => trivial
  | ok value rest =>
      cases follows
      obtain ⟨taken, rfl, settled⟩ := settled
      refine ⟨front ++ taken, (List.append_assoc ..).symm, fun b behind heads => ?_⟩
      obtain ⟨c, goes⟩ := same b (taken ++ behind) (head?_append_congr heads)
      rw [List.append_assoc]
      exact goes.trans (settled c behind heads)
  | fail error rest =>
      obtain ⟨_, rfl⟩ := follows
      obtain ⟨before, tail, rfl, place, ⟨more, fits⟩, never⟩ := settled
      refine ⟨front ++ before, tail, (List.append_assoc ..).symm, place, ⟨more, ?_⟩, ?_⟩
      · rw [List.append_assoc]
        exact shapes _ fits
      · intro b other heads value rest done
        rw [List.append_assoc] at done
        obtain ⟨c, goes⟩ := same b (before ++ other) (head?_append_congr heads)
        rw [done] at goes
        exact never c other heads value rest goes

/-- As before, for functions that lower their budget. -/
theorem Settles.next {shape inner : List Token → Prop} {F G : Nat → List Token → Reply α}
    (front : List Token) {ts : List Token} {r s : Reply α} (settled : Settles stop inner G ts s)
    (follows : r.Follows s) (spent : ∀ us, F 0 us = .exhausted)
    (same : ∀ b us, us.head? = ts.head? → (F (b + 1) (front ++ us)).Follows (G b us))
    (shapes : ∀ us, inner us → shape (front ++ us)) : Settles stop shape F (front ++ ts) r := by
  refine settled.step front follows (fun b us heads => ?_) shapes
  cases b with
  | zero => exact ⟨0, spent _ ▸ trivial⟩
  | succ b => exact ⟨b, same b us heads⟩

/-- After the tokens `front` reading goes on as `G` does, whatever follows. -/
theorem Settles.behind {shape inner : List Token → Prop} {F G : Nat → List Token → Reply α}
    (front : List Token) {ts : List Token} {b : Nat} (settled : Settles stop inner G ts (G b ts))
    (spent : ∀ us, F 0 us = .exhausted) (same : ∀ c us, F (c + 1) (front ++ us) = G c us)
    (shapes : ∀ us, inner us → shape (front ++ us)) :
    Settles stop shape F (front ++ ts) (F (b + 1) (front ++ ts)) := by
  rw [same]
  exact settled.next front (.of_eq rfl) spent (fun c us _ => .of_eq (same c us)) shapes

/-- Reading one thing and then another. What was taken for the first is put in front of the shape of the
second; and the beginning of something of the first shape can be completed with something behind it. -/
theorem Settles.andThen {first shape : List Token → Prop} {F : Nat → List Token → Reply α}
    {G : α → Nat → List Token → Reply β} {ts : List Token} {b : Nat}
    (settled : Settles stop first F ts (F b ts))
    (continued : ∀ value taken rest, F b ts = .ok value rest → ts = taken ++ rest →
      Settles stop (fun us => shape (taken ++ us)) (G value) rest (G value b rest))
    (completed : ∀ us, first us → ∃ more, shape (us ++ more)) :
    Settles stop shape (fun b us => (F b us).andThen fun value rest => G value b rest) ts
      ((F b ts).andThen fun value rest => G value b rest) := by
  cases reply : F b ts with
  | exhausted => trivial
  | fail error rest =>
      rw [reply] at settled
      obtain ⟨front, tail, rfl, place, ⟨more, fits⟩, never⟩ := settled
      obtain ⟨last, whole⟩ := completed _ fits
      refine ⟨front, tail, rfl, place, ⟨more ++ last, by rwa [← List.append_assoc]⟩, ?_⟩
      intro c other heads value after done
      obtain ⟨v, between, read, -⟩ := Reply.andThen_eq_ok done
      exact never c other heads v between read
  | ok value rest =>
      rw [reply] at settled
      obtain ⟨taken, rfl, settled⟩ := settled
      have next := continued value taken rest reply rfl
      -- Whatever is read behind `taken`, the first function gives the same value before it.
      have goes : ∀ c us, us.head? = rest.head? →
          ((F c (taken ++ us)).andThen fun value rest => G value c rest).Follows (G value c us) := by
        intro c us heads
        have again := settled c us heads
        cases read : F c (taken ++ us) with
        | ok v after =>
            rw [read] at again
            cases again
            exact .of_eq rfl
        | fail error after =>
            rw [read] at again
            obtain ⟨_, impossible⟩ := again
            cases impossible
        | exhausted => trivial
      exact Settles.step taken next (.of_eq rfl) (fun c us heads => ⟨c, goes c us heads⟩) fun us fits => fits

theorem Settles.map {shape : List Token → Prop} {F : Nat → List Token → Reply α} {ts : List Token}
    {r : Reply α} (f : α → β) (settled : Settles stop shape F ts r) :
    Settles stop shape (fun b us => (F b us).map f) ts (r.map f) := by
  cases r with
  | exhausted => trivial
  | ok value rest =>
      obtain ⟨taken, rfl, settled⟩ := settled
      exact ⟨taken, rfl, fun b behind heads => (settled b behind heads).map f⟩
  | fail error rest =>
      obtain ⟨front, tail, rfl, place, fits, never⟩ := settled
      refine ⟨front, tail, rfl, place, fits, fun b other heads value after done => ?_⟩
      obtain ⟨v, between, read, -⟩ := Reply.andThen_eq_ok done
      exact never b other heads v between read

/-- A value that needs no more than the tokens `taken`. -/
theorem Settles.value {shape : List Token → Prop} {F : Nat → List Token → Reply α} {value : α}
    (taken : List Token) {rest : List Token} (spent : ∀ us, F 0 us = .exhausted)
    (same : ∀ b us, us.head? = rest.head? → F (b + 1) (taken ++ us) = .ok value us) :
    Settles stop shape F (taken ++ rest) (.ok value rest) :=
  ⟨taken, rfl, fun b us heads =>
    Reply.follows_of_succ (F := fun b => F b (taken ++ us)) (spent _) (fun b => .of_eq (same b us heads)) b⟩

/-- A failure that is reported behind the tokens `front`. -/
theorem Settles.refusal {shape : List Token → Prop} {F : Nat → List Token → Reply α}
    (front : List Token) {error : Diagnostic} {ts rest : List Token} (more : List Token)
    (place : error.pos = placeOf stop ts) (fits : shape (front ++ more))
    (spent : ∀ us, F 0 us = .exhausted)
    (refused : ∀ b us, us.head? = ts.head? → ∃ e after, F (b + 1) (front ++ us) = .fail e after) :
    Settles stop shape F (front ++ ts) (.fail error rest) := by
  refine ⟨front, ts, rfl, place, ⟨more, fits⟩, fun b us heads value after done => ?_⟩
  cases b with
  | zero =>
      rw [spent] at done
      cases done
  | succ b =>
      obtain ⟨e, next, failed⟩ := refused b us heads
      rw [failed] at done
      cases done

/-! ## Expressions -/

/-- A word that completes what was begun. -/
def filler (kind : Token.Kind) (text : String) : Token := ⟨kind, utf8 text, .nowhere⟩

def IsExpression (s : Stratum) (ts : List Token) : Prop := ∃ e, Expression s ts e

/-- The tokens are the arguments of a call, through its closing parenthesis. -/
def IsArguments (ts : List Token) : Prop :=
  ∃ args, ∀ name opening : Token, name.kind = .identifier → opening.kind = .openParen →
    Call (name :: opening :: ts) name args

/-- The tokens are arguments of a call, one at least, through its closing parenthesis. -/
def IsMoreArguments (ts : List Token) : Prop :=
  ∃ inner closing args, ts = inner ++ [closing] ∧ closing.kind = .closeParen ∧ Expressions inner args

theorem isExpression_null (n : Nat) : IsExpression (.above n) [filler .null "null"] := by
  have tight : Expression (.above (n + 4)) [filler .null "null"] _ := .plain (.constant .null)
  exact ⟨_, tight.loosen (by omega)⟩

theorem close_settles {shape : List Token → Prop} (value : α) (ts more : List Token) (fits : shape more) :
    Settles stop shape (fun _ => close stop value) ts (close stop value ts) := by
  cases reply : close stop value ts with
  | ok found rest =>
      obtain ⟨rfl, closing, rfl, kind⟩ := close_eq_ok reply
      exact ⟨[closing], rfl, fun b behind _ => .of_eq (close_closing stop kind)⟩
  | fail error rest =>
      have place : error.pos = placeOf stop ts := by
        cases ts with
        | nil =>
            cases reply
            rfl
        | cons t others =>
            simp only [close] at reply
            split at reply
            · cases reply
            · cases reply
              rfl
      refine ⟨[], ts, rfl, place, ⟨more, fits⟩, fun b other heads found after done => ?_⟩
      obtain ⟨-, closing, rfl, kind⟩ := close_eq_ok done
      obtain ⟨others, rfl⟩ := List.head?_eq_some_iff.mp heads.symm
      rw [close_closing stop kind] at reply
      cases reply
  | exhausted => trivial

theorem operand_refuses {budget : Nat} {t : Token} {ts : List Token} (noLiteral : literalKind? t.kind = none)
    (noName : t.kind ≠ .identifier) (noParen : t.kind ≠ .openParen) (noBang : t.kind ≠ .bang) :
    operand stop (budget + 1) (t :: ts) = .fail (unexpectedAt stop (t :: ts)) ts := by
  simp only [operand, noLiteral]

theorem operand_taken {b : Nat} {taken rest : List Token} {e : Expr}
    (read : operand stop b (taken ++ rest) = .ok e rest) : Expression .negated taken e := by
  obtain ⟨first, split, derived⟩ := operand_sound read
  rwa [List.append_cancel_right split]

theorem expression_taken {b rank : Nat} {taken rest : List Token} {e : Expr}
    (read : expression stop b rank (taken ++ rest) = .ok e rest) :
    Expression (.above rank) taken e ∧ Stops rank rest := by
  obtain ⟨first, split, derived, stops⟩ := expression_sound read
  rw [List.append_cancel_right split]
  exact ⟨derived, stops⟩

theorem stops_of_head {rank : Nat} {ts us : List Token} (heads : us.head? = ts.head?)
    (stops : Stops rank ts) : Stops rank us := by
  rw [Stops, heads]
  exact stops

/-- What does not end an expression read at `rank` is an operator that binds more tightly. -/
theorem operator_of_not_stops {rank : Nat} {ts : List Token} (goesOn : ¬ Stops rank ts) :
    ∃ t rest op level, ts = t :: rest ∧ t.kind = .operator op ∧ op.level? = some level ∧
      rank < level.rank := by
  simp only [Stops, Classical.not_forall, Nat.not_le] at goesOn
  obtain ⟨t, first, op, level, kind, known, tighter⟩ := goesOn
  obtain ⟨rest, rfl⟩ := List.head?_eq_some_iff.mp first
  exact ⟨t, rest, op, level, rfl, kind, known, tighter⟩

/-- What follows an argument: another one behind a comma, or the closing parenthesis. -/
def argumentsAfter (stop : Position) (e : Expr) (b : Nat) (ts : List Token) : Reply (List Expr) :=
  match ts with
  | t :: after =>
      if t.kind = .comma then (moreArguments stop b after).map fun es => e :: es
      else close stop [e] ts
  | [] => close stop [e] ts

theorem argumentsAfter_settles {b : Nat} {taken : List Token} {e : Expr}
    (derived : Expression .whole taken e) (rest : List Token)
    (others : ∀ ts, Settles stop IsMoreArguments (moreArguments stop) ts (moreArguments stop b ts)) :
    Settles stop (fun us => IsMoreArguments (taken ++ us)) (argumentsAfter stop e) rest
      (argumentsAfter stop e b rest) := by
  by_cases comma : StartsWith .comma rest
  · obtain ⟨t, after, rfl, kind⟩ := comma
    have goesOn : ∀ c us, argumentsAfter stop e c (t :: us) = (moreArguments stop c us).map (e :: ·) :=
      fun c us => if_pos kind
    rw [goesOn]
    refine ((others after).map (e :: ·)).step [t] (.of_eq rfl) (fun c us _ => ⟨c, .of_eq (goesOn c us)⟩) ?_
    rintro us ⟨inner, closing, args, rfl, parenthesis, more⟩
    exact ⟨taken ++ t :: inner, closing, e :: args, by simp, parenthesis, .more derived kind more⟩
  · have ends : ∀ c us, us.head? = rest.head? → argumentsAfter stop e c us = close stop [e] us := by
      intro c us heads
      cases us with
      | nil => rfl
      | cons t after => exact if_neg fun kind => comma (startsWith_of_head heads kind)
    have closed : Settles stop (fun us => IsMoreArguments (taken ++ us)) (fun _ => close stop [e]) rest
        (close stop [e] rest) :=
      close_settles [e] rest [filler .closeParen ")"] ⟨taken, _, [e], rfl, rfl, .last derived⟩
    rw [ends b rest rfl]
    exact closed.step [] (.of_eq rfl) (fun c us heads => ⟨c, .of_eq (ends c us heads)⟩) fun us fits => fits

/-! ### One lemma for each way to begin an operand -/

theorem constant_settles {b : Nat} {t : Token} {ts : List Token} {kind : LiteralKind}
    (constant : Constant t.kind kind) :
    Settles stop (IsExpression .negated) (operand stop) (t :: ts) (operand stop (b + 1) (t :: ts)) := by
  rw [operand_constant stop constant]
  exact Settles.value [t] (fun _ => rfl) fun c us _ => operand_constant stop constant

theorem name_settles {b : Nat} {t : Token} {ts : List Token} (kind : t.kind = .identifier)
    (noParen : NoParen ts) :
    Settles stop (IsExpression .negated) (operand stop) (t :: ts) (operand stop (b + 1) (t :: ts)) := by
  rw [operand_name stop kind noParen]
  refine Settles.value [t] (fun _ => rfl) fun c us heads => ?_
  exact operand_name stop kind fun next first => noParen next (heads ▸ first)

theorem called_settles {b : Nat} {t opening : Token} {ts : List Token} (kind : t.kind = .identifier)
    (parenthesis : opening.kind = .openParen)
    (inside : Settles stop IsArguments (arguments stop) ts (arguments stop b ts)) :
    Settles stop (IsExpression .negated) (operand stop) (t :: opening :: ts)
      (operand stop (b + 1) (t :: opening :: ts)) := by
  have read : ∀ c us, operand stop (c + 1) (t :: opening :: us) =
      (arguments stop c us).map fun args => .call t.text args t.pos := by
    intro c us
    simp only [operand, kind, literalKind?, parenthesis, if_true]
    rfl
  apply (inside.map _).behind [t, opening] (fun _ => rfl) read
  rintro us ⟨args, call⟩
  exact ⟨_, .plain (.call (call t opening kind parenthesis))⟩

theorem group_settles {b : Nat} {t : Token} {ts : List Token} (kind : t.kind = .openParen)
    (inside : Settles stop (IsExpression .whole) (fun c => expression stop c 0) ts
      (expression stop b 0 ts)) :
    Settles stop (IsExpression .negated) (operand stop) (t :: ts) (operand stop (b + 1) (t :: ts)) := by
  have read : ∀ c us, operand stop (c + 1) (t :: us) =
      (expression stop c 0 us).andThen fun e rest => close stop e rest := by
    intro c us
    simp only [operand, kind, literalKind?]
  have inner : Settles stop (fun us => IsExpression .negated (t :: us))
      (fun c us => (expression stop c 0 us).andThen fun e rest => close stop e rest) ts
      ((expression stop b 0 ts).andThen fun e rest => close stop e rest) := by
    refine inside.andThen ?_ ?_
    · rintro e taken rest done rfl
      apply close_settles e rest [filler .closeParen ")"]
      exact ⟨e, .plain (.group kind (expression_taken done).1 rfl)⟩
    · rintro us ⟨e, derived⟩
      exact ⟨[filler .closeParen ")"], e, .plain (.group kind derived rfl)⟩
  exact inner.behind [t] (fun _ => rfl) read fun us fits => fits

theorem negation_settles {b : Nat} {t : Token} {ts : List Token} (kind : t.kind = .bang)
    (inside : Settles stop (IsExpression .negated) (operand stop) ts (operand stop b ts)) :
    Settles stop (IsExpression .negated) (operand stop) (t :: ts) (operand stop (b + 1) (t :: ts)) := by
  have read : ∀ c us, operand stop (c + 1) (t :: us) =
      (operand stop c us).map fun e => .negation e t.pos := by
    intro c us
    simp only [operand, kind, literalKind?]
    rfl
  apply (inside.map _).behind [t] (fun _ => rfl) read
  rintro us ⟨e, derived⟩
  exact ⟨_, .negation kind derived⟩

mutual

theorem operand_settles : ∀ (b : Nat) (ts : List Token),
    Settles stop (IsExpression .negated) (operand stop) ts (operand stop b ts)
  | 0, _ => trivial
  | b + 1, [] => by
      refine Settles.refusal [] [filler .null "null"] rfl (isExpression_null 4) (fun _ => rfl) ?_
      intro b us heads
      rw [List.head?_eq_none_iff.mp heads]
      exact ⟨_, _, rfl⟩
  | b + 1, t :: ts => by
      cases found : literalKind? t.kind with
      | some kind => exact constant_settles (constant_iff_literalKind?.mpr found)
      | none =>
          by_cases name : t.kind = .identifier
          · by_cases called : StartsWith .openParen ts
            · obtain ⟨opening, after, rfl, parenthesis⟩ := called
              exact called_settles name parenthesis (arguments_settles b after)
            · apply name_settles name
              intro next first parenthesis
              obtain ⟨after, rfl⟩ := List.head?_eq_some_iff.mp first
              exact called ⟨next, after, rfl, parenthesis⟩
          by_cases opening : t.kind = .openParen
          · exact group_settles opening (expression_settles b 0 ts)
          by_cases bang : t.kind = .bang
          · exact negation_settles bang (operand_settles b ts)
          have refused : ∀ c us, operand stop (c + 1) (t :: us) = .fail (unexpectedAt stop (t :: us)) us :=
            fun c us => operand_refuses found name opening bang
          rw [refused]
          refine Settles.refusal [] [filler .null "null"] rfl (isExpression_null 4) (fun _ => rfl) ?_
          intro c us heads
          obtain ⟨others, rfl⟩ := List.head?_eq_some_iff.mp heads
          exact ⟨_, _, refused c others⟩

theorem expression_settles : ∀ (b rank : Nat) (ts : List Token),
    Settles stop (IsExpression (.above rank)) (fun b => expression stop b rank) ts
      (expression stop b rank ts)
  | 0, _, _ => trivial
  | b + 1, rank, ts => by
      have inner : Settles stop (IsExpression (.above rank))
          (fun b us => (operand stop b us).andThen fun left rest => climb stop b rank left rest) ts
          ((operand stop b ts).andThen fun left rest => climb stop b rank left rest) := by
        refine (operand_settles b ts).andThen ?_ ?_
        · rintro left taken rest read rfl
          -- An operand is tighter than any operator, so climbing may start at whatever rank is wanted.
          have tight : Expression (.above (rank + 4)) taken left := operand_taken read
          have stops : Stops (rank + 4 + 1) rest := fun _ _ _ level _ _ =>
            Nat.le_trans level.rank_le_four (by omega)
          exact climb_settles b rank left taken rest (by omega) tight stops
        · rintro us ⟨e, derived⟩
          have tight : Expression (.above (rank + 4)) us e := derived
          exact ⟨[], e, by rw [List.append_nil]; exact tight.loosen (by omega)⟩
      exact inner.next [] (.of_eq rfl) (fun _ => rfl) (fun c us _ => .of_eq rfl) fun us fits => fits

/-- Climbing on from `left`, which was read from `ls`. -/
theorem climb_settles : ∀ (b rank : Nat) {n : Nat} (left : Expr) (ls ts : List Token), rank ≤ n →
    Expression (.above n) ls left → Stops (n + 1) ts →
      Settles stop (fun us => IsExpression (.above rank) (ls ++ us)) (fun b => climb stop b rank left) ts
        (climb stop b rank left ts)
  | 0, _, _, _, _, _, _, _, _ => trivial
  | b + 1, rank, n, left, ls, ts, le, derived, stops => by
      by_cases done : Stops rank ts
      · rw [climb_stops stop (Nat.succ_pos b) done]
        exact Settles.value [] (fun _ => rfl) fun c us heads =>
          climb_stops stop (Nat.succ_pos c) (stops_of_head heads done)
      · obtain ⟨t, us, op, level, rfl, kind, known, tighter⟩ := operator_of_not_stops done
        have taken : ∀ c vs, climb stop (c + 1) rank left (t :: vs) =
            (expression stop c level.rank vs).andThen fun right rest =>
              climb stop c rank (.binary level op left right t.pos) rest := by
          intro c vs
          simp only [climb, operator?_eq_some.mpr ⟨kind, known⟩, tighter, if_true]
        have leftDerived : Expression (.binary level) ls left := by
          have bound : level.rank ≤ n + 1 := stops t rfl op level kind known
          rw [← above_rank_pred]
          exact derived.loosen (by omega)
        have inner : Settles stop (fun vs => IsExpression (.above rank) (ls ++ t :: vs))
            (fun c vs => (expression stop c level.rank vs).andThen fun right rest =>
              climb stop c rank (.binary level op left right t.pos) rest) us
            ((expression stop b level.rank us).andThen fun right rest =>
              climb stop b rank (.binary level op left right t.pos) rest) := by
          refine (expression_settles b level.rank us).andThen ?_ ?_
          · rintro right between rest read rfl
            obtain ⟨rightDerived, stopped⟩ := expression_taken read
            rw [above_rank] at rightDerived
            have joined := Expression.operation kind known leftDerived rightDerived
            rw [← above_rank_pred] at joined
            have again : level.rank - 1 + 1 = level.rank := by have := level.rank_pos; omega
            have climbed := climb_settles b rank _ (ls ++ t :: between) rest (by omega) joined
              (by rw [again]; exact stopped)
            simpa only [List.append_assoc, List.cons_append] using climbed
          · rintro vs ⟨right, rightDerived⟩
            rw [above_rank] at rightDerived
            have joined := Expression.operation kind known leftDerived rightDerived
            rw [← above_rank_pred] at joined
            exact ⟨[], _, by rw [List.append_nil]; exact joined.loosen (by omega)⟩
        exact inner.behind [t] (fun _ => rfl) taken fun vs fits => fits

theorem arguments_settles : ∀ (b : Nat) (ts : List Token),
    Settles stop IsArguments (arguments stop) ts (arguments stop b ts)
  | 0, _ => trivial
  | b + 1, [] => by
      refine Settles.refusal [] [filler .closeParen ")"] rfl ?_ (fun _ => rfl) ?_
      · exact ⟨[], fun name opening kind parenthesis => .empty kind parenthesis rfl⟩
      · intro c us heads
        rw [List.head?_eq_none_iff.mp heads]
        exact ⟨_, _, rfl⟩
  | b + 1, t :: ts => by
      by_cases closing : t.kind = .closeParen
      · rw [arguments, if_pos closing]
        exact Settles.value [t] (fun _ => rfl) fun c us _ => if_pos closing
      · rw [arguments, if_neg closing]
        refine (moreArguments_settles b (t :: ts)).next [] (.of_eq rfl) (fun _ => rfl) ?_ ?_
        · intro c us heads
          obtain ⟨others, rfl⟩ := List.head?_eq_some_iff.mp heads
          exact .of_eq (if_neg closing)
        · rintro us ⟨inner, last, args, rfl, kind, derived⟩
          exact ⟨args, fun name opening isName parenthesis => .arguments isName parenthesis derived kind⟩

theorem moreArguments_settles : ∀ (b : Nat) (ts : List Token),
    Settles stop IsMoreArguments (moreArguments stop) ts (moreArguments stop b ts)
  | 0, _ => trivial
  | b + 1, ts => by
      have inner : Settles stop IsMoreArguments
          (fun b us => (expression stop b 0 us).andThen fun e rest => argumentsAfter stop e b rest) ts
          ((expression stop b 0 ts).andThen fun e rest => argumentsAfter stop e b rest) := by
        refine (expression_settles b 0 ts).andThen ?_ ?_
        · rintro e taken rest read rfl
          exact argumentsAfter_settles (expression_taken read).1 rest fun us => moreArguments_settles b us
        · rintro us ⟨e, derived⟩
          exact ⟨[filler .closeParen ")"], us, _, [e], rfl, rfl, .last derived⟩
      exact inner.next [] (.of_eq rfl) (fun _ => rfl) (fun c us _ => .of_eq rfl) fun us fits => fits

end

end Parser

end LoopScript
