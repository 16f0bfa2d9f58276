/-
# LoopScript.Proofs.Parser.FirstError — the first diagnostic is at the earliest possible token

A sequence of tokens is viable if some program begins with it (`Viable`); the end of the source counts as
a last entry, which only whole programs have. A source that is refused has a first diagnostic, and that
stands at the first entry with which the source stops being viable (`first_error_earliest`): the entries
in front of it are the beginning of a program, and with it they are the beginning of none.

That reading is local (`LoopScript.Proofs.Parser.StatementLocality`) gives both halves. What was taken
before the failure can be completed to lines; and lines that began with the refused entry would be read
without a diagnostic (`readTokens_of_lines`), which they are not.
-/
import LoopScript.Proofs.Parser
import LoopScript.Proofs.Parser.StatementLocality

namespace LoopScript

set_option autoImplicit false

/-! ## Viable beginnings -/

namespace Program

open Grammar

/-- The tokens of a program, and its end as a last entry. -/
def entries (ts : List Token) : List (Option Token) := ts.map some ++ [none]

/-- Where an entry stands; `stop` is the place of the end. -/
def entryPos (stop : Position) : Option Token → Position
  | some t => t.pos
  | none => stop

/-- Some program begins with these entries. -/
def Viable (front : List (Option Token)) : Prop := ∃ ts p, Lines ts p ∧ front <+: entries ts

theorem entries_append (front tail : List Token) :
    entries (front ++ tail) = front.map some ++ entries tail := by
  rw [entries, List.map_append, List.append_assoc, entries]

theorem entries_eq_cons (ts : List Token) : ∃ others, entries ts = ts.head? :: others := by
  cases ts with
  | nil => exact ⟨[], rfl⟩
  | cons t rest => exact ⟨entries rest, rfl⟩

theorem placeOf_eq (stop : Position) (ts : List Token) : Parser.placeOf stop ts = entryPos stop ts.head? := by
  cases ts <;> rfl

/-- A program that begins with some tokens and then an entry has that entry behind these tokens. -/
theorem split_of_prefix : ∀ {front ts : List Token} {entry : Option Token},
    front.map some ++ [entry] <+: entries ts → ∃ tail, ts = front ++ tail ∧ tail.head? = entry
  | [], ts, entry, begins => by
      obtain ⟨others, same⟩ := entries_eq_cons ts
      rw [same] at begins
      exact ⟨ts, rfl, (List.cons_prefix_cons.mp begins).1.symm⟩
  | t :: front, [], entry, begins => by
      cases (List.cons_prefix_cons.mp begins).1
  | t :: front, u :: us, entry, begins => by
      obtain ⟨same, rest⟩ := List.cons_prefix_cons.mp begins
      cases same
      obtain ⟨tail, rfl, first⟩ := split_of_prefix rest
      exact ⟨tail, rfl, first⟩

/-- What is refused has a diagnostic. -/
theorem errors_of_read {source : Text} {ds : List Diagnostic} (refused : read source = .error ds) :
    ds ≠ [] ∧ (readTokens (endOf source) (Token.tokens source)).errors = ds := by
  have errors : (readTokens (endOf source) (Token.tokens source)).errors = ds := by
    rw [read] at refused
    split at refused
    · cases refused
    · cases refused
      rfl
  refine ⟨fun none => ?_, errors⟩
  obtain ⟨p, -, lines⟩ := lines_of_readTokens (errors.trans none)
  rw [read_eq_ok.mpr lines] at refused
  cases refused

/-- The tokens in front of the first diagnostic and those from it on. -/
theorem split_at_first_error {stop : Position} {ts : List Token} {first : Diagnostic}
    {others : List Diagnostic} (errors : (readTokens stop ts).errors = first :: others) :
    ∃ front tail, ts = front ++ tail ∧ first.pos = Parser.placeOf stop tail ∧
      (∃ more p, Lines (front ++ more) p) ∧
      ∀ tail' p, tail'.head? = tail.head? → ¬ Lines (front ++ tail') p := by
  have settled : Parser.Settles stop Parser.IsLines _ ts _ :=
    Parser.statements_settles false (readBudget ts.length) ts
  rw [readTokens_eq] at settled
  cases reading : readTokens stop ts
  rw [reading] at settled errors
  cases errors
  obtain ⟨front, tail, rfl, place, fits, never⟩ := settled
  refine ⟨front, tail, rfl, place, fits, fun tail' p heads lines => ?_⟩
  refine never (readBudget (front ++ tail').length) tail' heads (some p) [] ?_
  dsimp only
  rw [readTokens_eq, readTokens_of_lines stop lines]
  rfl

end Program

theorem Script.read_of_compile_error {source : Text} {ds : List Diagnostic}
    (refused : compile source = .error ds) : Program.read source = .error ds := by
  rw [compile] at refused
  cases found : Program.read source with
  | ok p =>
      rw [found] at refused
      cases refused
  | error es =>
      rw [found] at refused
      cases refused
      rfl

/-- **The first diagnostic is at the earliest possible token.** A source that does not compile has a first
diagnostic, and it stands at an entry of the source: the entries in front of it are the beginning of a
program, and with it they are the beginning of none. -/
theorem Script.first_error_earliest {source : Text} {ds : List Diagnostic}
    (refused : compile source = .error ds) :
    ∃ first others i entry, ds = first :: others ∧
      (Program.entries (Token.tokens source))[i]? = some entry ∧
      first.pos = Program.entryPos (endOf source) entry ∧
      Program.Viable ((Program.entries (Token.tokens source)).take i) ∧
      ¬ Program.Viable ((Program.entries (Token.tokens source)).take (i + 1)) := by
  obtain ⟨present, errors⟩ := Program.errors_of_read (read_of_compile_error refused)
  obtain ⟨first, others, rfl⟩ := List.exists_cons_of_ne_nil present
  obtain ⟨front, tail, split, place, ⟨more, p, fits⟩, never⟩ := Program.split_at_first_error errors
  obtain ⟨behind, next⟩ := Program.entries_eq_cons tail
  have whole : Program.entries (Token.tokens source) = front.map some ++ tail.head? :: behind := by
    rw [split, Program.entries_append, next]
  rw [whole]
  refine ⟨first, others, (front.map some).length, tail.head?, rfl, ?_, ?_, ?_, ?_⟩
  · rw [List.getElem?_append_right (Nat.le_refl _), Nat.sub_self, List.getElem?_cons_zero]
  · rw [place, Program.placeOf_eq]
  · rw [List.take_left]
    exact ⟨front ++ more, p, fits, Program.entries_append front more ▸ List.prefix_append ..⟩
  · rintro ⟨ts, q, lines, begins⟩
    have taken : (front.map some ++ tail.head? :: behind).take ((front.map some).length + 1) =
        front.map some ++ [tail.head?] := by
      rw [List.take_length_add_append, List.take_succ_cons, List.take_zero]
    rw [taken] at begins
    obtain ⟨tail', rfl, heads⟩ := Program.split_of_prefix begins
    exact never tail' q heads lines

/-- A source in which an operand is missing before a closing brace. -/
def Script.missingOperand : Text := utf8 "if a \x7b\n x = (1 + \x7d else 2\n"

/-- Reading goes on behind the missing operand and finds three more faults, but the first diagnostic is at
the brace. -/
theorem Script.first_error_earliest_missing_operand :
    ∃ ds first others i entry, compile missingOperand = .error ds ∧ ds = first :: others ∧
      others.length = 3 ∧ first.pos = ⟨2, 11⟩ ∧
      (Program.entries (Token.tokens missingOperand))[i]? = some entry ∧
      entry.map Token.kind = some .closeBrace ∧
      Program.Viable ((Program.entries (Token.tokens missingOperand)).take i) ∧
      ¬ Program.Viable ((Program.entries (Token.tokens missingOperand)).take (i + 1)) := by
  have computed : Except.casesOn (motive := fun _ => Bool) (compile missingOperand)
      (fun ds => decide (ds.tail.length = 3 ∧ ds.head?.map Diagnostic.pos = some ⟨2, 11⟩))
      (fun _ => false) = true := by decide +kernel
  -- Only the brace stands at that place.
  have only : ∀ entry ∈ Program.entries (Token.tokens missingOperand),
      Program.entryPos (endOf missingOperand) entry = ⟨2, 11⟩ →
        entry.map Token.kind = some .closeBrace := by decide +kernel
  cases refused : compile missingOperand with
  | ok script =>
      rw [refused] at computed
      cases computed
  | error ds =>
      obtain ⟨first, others, i, entry, rfl, found, place, viable, never⟩ := first_error_earliest refused
      rw [refused] at computed
      obtain ⟨count, pos⟩ := of_decide_eq_true computed
      have pos : first.pos = ⟨2, 11⟩ := Option.some.inj pos
      have brace := only entry (List.mem_of_getElem? found) (place.symm.trans pos)
      exact ⟨_, first, others, i, entry, rfl, rfl, count, pos, found, brace, viable, never⟩

end LoopScript
