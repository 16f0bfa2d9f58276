/-
# LoopScript.Proofs.Parser.Places — every diagnostic is about a token of the source, or about its end

Reading goes on after a failure, so a source may have many diagnostics. Each of them names what was found
and stands where that is: at a token of the source, or at its end (`Diagnostic.At`,
`Program.found_of_mem_diagnostics`). For the first diagnostic more is known
(`LoopScript.Proofs.Parser.FirstError`); the later ones depend on where reading went on.

All functions of `LoopScript.Tree.Parser` work their way from the front: what they leave is an end of the
tokens they were given, and what they report is about the first token of such an end. Nor do they go back:
what is left after a failure is an end of what the failure is about. So the diagnostics of a reading make
up a way through the tokens (`Diagnostic.Trail`), and the ways of two readings, one behind the other, make
up one (`Diagnostic.Trail.append`).
-/
import LoopScript.Proofs.Parser.Budget

namespace LoopScript

set_option autoImplicit false

/-- The token a diagnostic has found; absent at the end of the source. -/
def Diagnostic.found (d : Diagnostic) : Option Token :=
  match d.cause with
  | .unexpected found => found
  | .expected _ found => found

/-- The diagnostic is about the first of these tokens, or about the end of the source if there is none. -/
def Diagnostic.At (stop : Position) (ts : List Token) (d : Diagnostic) : Prop :=
  d.pos = Parser.placeOf stop ts ∧ d.found = ts.head?

/-- The way from `ts` to its end `rest`: each diagnostic is about an end of what is left from the one
before it, and `rest` is an end of what the last one is about. -/
inductive Diagnostic.Trail (stop : Position) : List Token → List Diagnostic → List Token → Prop where
  | clean {ts rest : List Token} (part : rest <:+ ts) : Trail stop ts [] rest
  | next {ts tail rest : List Token} {d : Diagnostic} {ds : List Diagnostic} (part : tail <:+ ts)
      (about : d.At stop tail) (behind : Trail stop tail ds rest) : Trail stop ts (d :: ds) rest

/-- What is left is an end of `ts`, and a failure is about something between the two. -/
def Reply.Within {α : Type} (stop : Position) (ts : List Token) : Reply α → Prop
  | .ok _ rest => rest <:+ ts
  | .fail error rest => Diagnostic.Trail stop ts [error] rest
  | .exhausted => True

/-- What is left is an end of `ts`, and the diagnostics are found on the way there. -/
def Reading.Within {α : Type} (stop : Position) (ts : List Token) (r : Option (Reading α)) : Prop :=
  ∀ reading ∈ r, Diagnostic.Trail stop ts reading.errors reading.rest

variable {stop : Position}

namespace Diagnostic

theorem unexpectedAt_at (ts : List Token) : (Parser.unexpectedAt stop ts).At stop ts := ⟨rfl, rfl⟩

theorem expectedAt_at (what : Expectation) (ts : List Token) :
    (Parser.expectedAt stop what ts).At stop ts :=
  ⟨rfl, rfl⟩

namespace Trail

/-- One diagnostic, about `tail`. -/
theorem single {ts tail rest : List Token} {d : Diagnostic} (about : d.At stop tail)
    (part : tail <:+ ts) (left : rest <:+ tail) : Trail stop ts [d] rest :=
  .next part about (.clean left)

/-- What is left behind the diagnostics is an end of the tokens. -/
theorem suffix {ts rest : List Token} {ds : List Diagnostic} (trail : Trail stop ts ds rest) :
    rest <:+ ts := by
  induction trail with
  | clean part => exact part
  | next part _ _ ih => exact ih.trans part

/-- A longer sequence with the same end. -/
theorem mono {ts us rest : List Token} {ds : List Diagnostic} (trail : Trail stop us ds rest)
    (part : us <:+ ts) : Trail stop ts ds rest := by
  cases trail with
  | clean inner => exact .clean (inner.trans part)
  | next inner about behind => exact .next (inner.trans part) about behind

theorem append {ts us rest : List Token} {ds es : List Diagnostic} (first : Trail stop ts ds us)
    (second : Trail stop us es rest) : Trail stop ts (ds ++ es) rest := by
  induction first with
  | clean part => exact second.mono part
  | next part about _ ih => exact .next part about (ih second)

/-- Going on to a later end. -/
theorem shorten {ts us rest : List Token} {ds : List Diagnostic} (trail : Trail stop ts ds us)
    (part : rest <:+ us) : Trail stop ts ds rest := by
  have whole := trail.append (.clean part)
  rwa [List.append_nil] at whole

/-- Each diagnostic is about some end of the tokens. -/
theorem at_of_mem {ts rest : List Token} {ds : List Diagnostic} (trail : Trail stop ts ds rest) :
    ∀ d ∈ ds, ∃ tail, tail <:+ ts ∧ d.At stop tail := by
  induction trail with
  | clean => exact List.forall_mem_nil _
  | @next _ tail _ d ds part about behind ih =>
      intro e listed
      rcases List.mem_cons.mp listed with rfl | later
      · exact ⟨tail, part, about⟩
      · obtain ⟨inner, inside, found⟩ := ih e later
        exact ⟨inner, inside.trans part, found⟩

/-- What a diagnostic is about has what all later ones are about as ends. -/
theorem pairwise {ts rest : List Token} {ds : List Diagnostic} (trail : Trail stop ts ds rest) :
    ds.Pairwise fun d e =>
      ∃ tail inner, tail <:+ ts ∧ inner <:+ tail ∧ d.At stop tail ∧ e.At stop inner := by
  induction trail with
  | clean => exact .nil
  | @next _ tail _ d ds part about behind ih =>
      refine .cons (fun e listed => ?_) (ih.imp ?_)
      · obtain ⟨inner, inside, found⟩ := behind.at_of_mem e listed
        exact ⟨tail, inner, part, inside, about, found⟩
      · rintro d e ⟨outer, inner, inside, shorter, first, second⟩
        exact ⟨outer, inner, inside.trans part, shorter, first, second⟩

end Trail

end Diagnostic

open Diagnostic

namespace Reply

variable {α β : Type}

theorem Within.mono {ts us : List Token} {r : Reply α} (inside : r.Within stop us) (part : us <:+ ts) :
    r.Within stop ts := by
  cases r with
  | ok value rest => exact inside.trans part
  | fail error rest => exact Trail.mono inside part
  | exhausted => trivial

theorem Within.andThen {ts us : List Token} {r : Reply α} {next : α → List Token → Reply β}
    (inside : r.Within stop us) (part : us <:+ ts)
    (after : ∀ value rest, rest <:+ ts → (next value rest).Within stop ts) :
    (r.andThen next).Within stop ts := by
  cases r with
  | ok value rest => exact after value rest (inside.trans part)
  | fail error rest => exact inside.mono part
  | exhausted => trivial

end Reply

namespace Parser

theorem close_within {α : Type} (value : α) (ts : List Token) :
    (close stop value ts).Within stop ts := by
  cases ts with
  | nil => exact .single (expectedAt_at _ []) List.suffix_rfl List.suffix_rfl
  | cons t rest =>
      rw [close]
      split
      · exact List.suffix_cons t rest
      · exact .single (expectedAt_at _ (t :: rest)) List.suffix_rfl List.suffix_rfl

/-! ## Expressions -/

mutual

theorem operand_within : ∀ (budget : Nat) (ts : List Token), (operand stop budget ts).Within stop ts
  | 0, _ => trivial
  | _ + 1, [] => .single (unexpectedAt_at []) List.suffix_rfl List.suffix_rfl
  | budget + 1, t :: ts => by
      have behind : ts <:+ t :: ts := List.suffix_cons t ts
      simp only [operand]
      split
      · exact behind
      · split
        · next after rest =>
            split
            · have inner : rest <:+ t :: after :: rest := (List.suffix_cons after rest).trans behind
              exact (arguments_within budget rest).andThen inner fun _ _ part => part
            · exact behind
        · exact behind
      · refine (expression_within budget 0 ts).andThen behind fun e rest part => ?_
        exact (close_within e rest).mono part
      · exact (operand_within budget ts).andThen behind fun _ _ part => part
      · exact .single (unexpectedAt_at (t :: ts)) List.suffix_rfl behind

theorem expression_within : ∀ (budget rank : Nat) (ts : List Token),
    (expression stop budget rank ts).Within stop ts
  | 0, _, _ => trivial
  | budget + 1, rank, ts => by
      rw [expression]
      refine (operand_within budget ts).andThen List.suffix_rfl fun left rest part => ?_
      exact (climb_within budget rank left rest).mono part

theorem climb_within : ∀ (budget rank : Nat) (left : Expr) (ts : List Token),
    (climb stop budget rank left ts).Within stop ts
  | 0, _, _, _ => trivial
  | _ + 1, _, _, [] => List.suffix_rfl
  | budget + 1, rank, left, t :: ts => by
      rw [climb]
      split
      · next op level _ =>
          split
          · refine (expression_within budget level.rank ts).andThen (List.suffix_cons t ts) ?_
            exact fun right rest part => (climb_within budget rank _ rest).mono part
          · exact List.suffix_rfl
      · exact List.suffix_rfl

theorem arguments_within : ∀ (budget : Nat) (ts : List Token), (arguments stop budget ts).Within stop ts
  | 0, _ => trivial
  | _ + 1, [] => .single (unexpectedAt_at []) List.suffix_rfl List.suffix_rfl
  | budget + 1, t :: ts => by
      rw [arguments]
      split
      · exact List.suffix_cons t ts
      · exact moreArguments_within budget (t :: ts)

theorem moreArguments_within : ∀ (budget : Nat) (ts : List Token),
    (moreArguments stop budget ts).Within stop ts
  | 0, _ => trivial
  | budget + 1, ts => by
      rw [moreArguments]
      refine (expression_within budget 0 ts).andThen List.suffix_rfl fun e rest part => ?_
      cases rest with
      | nil => exact (close_within [e] []).mono part
      | cons t after =>
          dsimp only
          split
          · have inner : after <:+ ts := (List.suffix_cons t after).trans part
            exact (moreArguments_within budget after).andThen inner fun _ _ part => part
          · exact (close_within [e] (t :: after)).mono part

end

/-! ## Statements -/

theorem reading_within {α : Type} {value : Option α} {errors : List Diagnostic} {ts rest : List Token}
    (trail : Trail stop ts errors rest) : Reading.Within stop ts (some ⟨value, errors, rest⟩) := by
  rintro _ ⟨⟩
  exact trail

theorem none_within {α : Type} (ts : List Token) :
    Reading.Within stop ts (none : Option (Reading α)) := by
  intro reading member
  cases member

theorem ofReply_within {α β : Type} {ts us : List Token} {r : Reply α} (make : α → β)
    (inside : r.Within stop us) (part : us <:+ ts) :
    Reading.Within stop ts (Reading.ofReply r make) := by
  cases r with
  | ok value rest => exact reading_within (.clean (inside.trans part))
  | fail error rest => exact reading_within (Trail.mono inside part)
  | exhausted => exact none_within ts

/-- The same reading with its value changed, of a longer sequence. -/
theorem map_within {α β : Type} {ts us : List Token} {r : Option (Reading α)} (f : Option α → Option β)
    (inside : Reading.Within stop us r) (part : us <:+ ts) :
    Reading.Within stop ts (r.map fun r => { r with value := f r.value }) := by
  intro reading member
  obtain ⟨inner, found, rfl⟩ := Option.map_eq_some_iff.mp member
  exact (inside inner found).mono part

mutual

theorem statement_within : ∀ (budget : Nat) (ts : List Token),
    Reading.Within stop ts (statement stop budget ts)
  | 0, ts => none_within ts
  | _ + 1, [] => reading_within (.clean List.suffix_rfl)
  | budget + 1, t :: ts => by
      have behind : ts <:+ t :: ts := List.suffix_cons t ts
      have noCall : ∀ us, us <:+ t :: ts →
          Trail stop (t :: ts) [expectedAt stop .assignOrCall us] us := fun us part =>
        .single (expectedAt_at _ us) part List.suffix_rfl
      simp only [statement]
      split
      · exact reading_within (.clean behind)
      · exact map_within _ (clause_within budget ts) behind
      · exact map_within _ (clause_within budget ts) behind
      · split
        · next after rest =>
            have inner : rest <:+ t :: after :: rest := (List.suffix_cons after rest).trans behind
            split
            · exact ofReply_within _ (expression_within budget 0 rest) inner
            · split
              · exact ofReply_within _ (arguments_within budget rest) inner
              · exact reading_within (noCall _ behind)
        · exact reading_within (noCall _ behind)
      · exact reading_within (.single (unexpectedAt_at (t :: ts)) List.suffix_rfl behind)

theorem statements_within (nested : Bool) : ∀ (budget : Nat) (ts : List Token),
    Reading.Within stop ts (statements stop nested budget ts)
  | 0, ts => none_within ts
  | _ + 1, [] => reading_within (.clean List.suffix_rfl)
  | budget + 1, t :: ts => by
      simp only [statements]
      split
      · exact reading_within (.clean List.suffix_rfl)
      · intro reading member
        obtain ⟨one, first, member⟩ := Option.bind_eq_some_iff.mp member
        obtain ⟨more, others, same⟩ := Option.bind_eq_some_iff.mp member
        cases same
        exact (statement_within budget (t :: ts) one first).append
          (statements_within nested budget one.rest more others)

theorem block_within : ∀ (budget : Nat) (ts : List Token), Reading.Within stop ts (block stop budget ts)
  | 0, ts => none_within ts
  | budget + 1, ts => by
      intro reading member
      rw [block] at member
      obtain ⟨body, found, member⟩ := Option.bind_eq_some_iff.mp member
      have trail := statements_within true budget ts body found
      split at member
      · next t rest same =>
          cases member
          rw [same] at trail
          exact trail.shorten (List.suffix_cons t rest)
      · next same =>
          -- The statements have come to the end, and what is missing there is reported after all else.
          cases member
          rw [same] at trail
          exact trail.append (.single (expectedAt_at _ []) List.suffix_rfl List.suffix_rfl)

theorem clause_within : ∀ (budget : Nat) (ts : List Token), Reading.Within stop ts (clause stop budget ts)
  | 0, ts => none_within ts
  | budget + 1, ts => by
      have condition : (expression stop budget 0 ts).Within stop ts := expression_within budget 0 ts
      simp only [clause]
      split
      · exact none_within ts
      · next same =>
          rw [same] at condition
          exact reading_within condition
      · next t rest same =>
          rw [same] at condition
          have part : t :: rest <:+ ts := condition
          split
          · intro reading member
            obtain ⟨body, found, member⟩ := Option.bind_eq_some_iff.mp member
            have inner : rest <:+ ts := (List.suffix_cons t rest).trans part
            have trail : Trail stop ts body.errors body.rest :=
              (block_within budget rest body found).mono inner
            split at member
            · cases member
              exact trail
            · split at member
              · next after follows =>
                  split at member
                  · obtain ⟨other, last, same⟩ := Option.bind_eq_some_iff.mp member
                    cases same
                    rw [follows] at trail
                    exact (trail.shorten (List.suffix_cons _ after)).append
                      (alternative_within budget after other last)
                  · cases member
                    exact trail
              · cases member
                exact trail
          · exact reading_within (.single (expectedAt_at _ (t :: rest)) part List.suffix_rfl)
      · exact reading_within (.single (expectedAt_at _ []) List.nil_suffix List.suffix_rfl)

theorem alternative_within : ∀ (budget : Nat) (ts : List Token),
    Reading.Within stop ts (alternative stop budget ts)
  | 0, ts => none_within ts
  | _ + 1, [] => reading_within (.single (expectedAt_at _ []) List.suffix_rfl List.suffix_rfl)
  | budget + 1, t :: ts => by
      have behind : ts <:+ t :: ts := List.suffix_cons t ts
      simp only [alternative]
      split
      · exact map_within _ (block_within budget ts) behind
      · exact map_within _ (clause_within budget ts) behind
      · exact reading_within (.single (expectedAt_at _ (t :: ts)) List.suffix_rfl behind)

end

end Parser

namespace Program

/-- The diagnostics of a source, in the order in which reading finds them. -/
def diagnostics (source : Text) : List Diagnostic :=
  (readTokens (endOf source) (Token.tokens source)).errors

/-- They are found on the way to the end of the source. -/
theorem diagnostics_trail (source : Text) :
    ∃ rest, Trail (endOf source) (Token.tokens source) (diagnostics source) rest := by
  have within : Reading.Within (endOf source) (Token.tokens source)
      (some (readTokens (endOf source) (Token.tokens source))) := by
    rw [← readTokens_eq]
    exact Parser.statements_within false _ _
  exact ⟨_, within _ rfl⟩

theorem eq_diagnostics_of_read_error {source : Text} {ds : List Diagnostic}
    (refused : read source = .error ds) : ds = diagnostics source := by
  rw [read] at refused
  split at refused
  · cases refused
  · cases refused
    rfl

/-- A diagnostic is about a token of the source, or about its end. -/
theorem found_of_mem_diagnostics {source : Text} {d : Diagnostic} (listed : d ∈ diagnostics source) :
    d.found = none ∧ d.pos = endOf source ∨
      ∃ t ∈ Token.tokens source, d.found = some t ∧ d.pos = t.pos := by
  obtain ⟨rest, trail⟩ := diagnostics_trail source
  obtain ⟨tail, part, place, found⟩ := trail.at_of_mem d listed
  cases tail with
  | nil => exact .inl ⟨found, place⟩
  | cons t rest => exact .inr ⟨t, part.subset List.mem_cons_self, found, place⟩

/-- A diagnostic of a source that is refused is about a token of the source, or about its end. -/
theorem found_of_read_error {source : Text} {ds : List Diagnostic}
    (refused : read source = .error ds) : ∀ d ∈ ds,
      d.found = none ∧ d.pos = endOf source ∨
        ∃ t ∈ Token.tokens source, d.found = some t ∧ d.pos = t.pos := by
  intro d listed
  rw [eq_diagnostics_of_read_error refused] at listed
  exact found_of_mem_diagnostics listed

end Program

end LoopScript
