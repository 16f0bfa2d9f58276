/-
# LoopScript.Proofs.Quotation — a text in quotes is that text

A literal keeps its bytes as they stand in the source, with the quotes, and becomes a value when it is
evaluated: then the quotes are dropped from its characters, and the rest is written as UTF-8 again
(`Eval.unquote`). The quotes are ASCII, so the bytes between them are read as they would be alone, even if
they end in a character cut short (`unquote_quoted`). What evaluation adds is that every byte that belongs to
no character has become U+FFFD, and nothing else (`mended`, `mended_of_isUtf8`).

The lexer looks at nothing between the quotes but for the closing one (`string_stands`). So a source can hold
any text that lacks one of the two quotes, and running it binds and displays that text (`quotation_verbatim`).
-/
import LoopScript.Proofs.Text.Chars
import LoopScript.Proofs.Token.Normal
import LoopScript.Proofs.Written
import Mathlib.Data.List.Basic

namespace LoopScript

set_option autoImplicit false

namespace Text

/-- The text with U+FFFD in the place of every byte that belongs to no character. -/
def mended (t : Text) : Text :=
  t.runes.flatMap fun r => if r.isStray then [0xEF, 0xBF, 0xBD] else r.bytes

/-- A text in which every byte belongs to a character is left as it is. -/
theorem mended_of_isUtf8 {t : Text} (valid : t.isUtf8 = true) : t.mended = t := by
  have kept : t.mended = ofRunes t.runes := by
    refine List.flatMap_congr fun r member => ?_
    have sound := List.all_eq_true.mp valid r member
    rw [Bool.not_eq_true'] at sound
    rw [sound, if_neg Bool.false_ne_true]
  rw [kept, bytes_runes]

/-- A rune is the form of its character, or it is a stray byte. -/
theorem bytes_of_mem_runes {t : Text} {r : Rune} (member : r ∈ t.runes) :
    String.utf8EncodeChar r.char = r.bytes ∨ r.isStray = true := by
  rcases rune_cases member with ⟨c, rfl⟩ | ⟨b, -, rfl⟩
  · exact .inl rfl
  · exact .inr (by simp [Rune.stray, Rune.isStray])

/-- Mending is reading the characters and writing them again. -/
theorem mended_eq_ofChars (t : Text) : t.mended = ofChars t.chars := by
  rw [ofChars, chars, List.flatMap_map]
  refine List.flatMap_congr fun r member => ?_
  split
  · next stray =>
      rw [Rune.isStray, Bool.and_eq_true, beq_iff_eq] at stray
      rw [stray.1]
      rfl
  · next sound => exact ((bytes_of_mem_runes member).resolve_right sound).symm

/-- The characters of a text in quotes are those of the text, and a quote on each side. -/
theorem chars_quoted {quote : UInt8} (ascii : quote.toNat < 0x80) (s : Text) :
    chars (quote :: s ++ [quote]) = Char.ofNat quote.toNat :: s.chars ++ [Char.ofNat quote.toNat] := by
  rw [List.cons_append, chars, runes_cons_ascii ascii, runes_append_ascii ascii, List.map_cons,
    List.map_append]
  rfl

end Text

/-- The value of a text in quotes is that text, mended. -/
theorem Eval.unquote_quoted {quote : UInt8} (ascii : quote.toNat < 0x80) (s : Text) :
    Eval.unquote (quote :: s ++ [quote]) = s.mended := by
  rw [Eval.unquote, Text.chars_quoted ascii, List.cons_append, List.drop_succ_cons, List.drop_zero,
    List.dropLast_concat, Text.mended_eq_ofChars]

namespace Script

/-! ## In programs -/

section Quoted

variable {quote : UInt8} {s : Text} (isQuote : quote ∈ utf8 "\"'")
include isQuote

theorem expr_quoted (host : Host) (pos : Position) :
    Eval.expr host (.literal .string (quote :: s ++ [quote]) pos) = Run.pure (.text s.mended) := by
  have ascii : quote.toNat < 0x80 :=
    (show ∀ b ∈ utf8 "\"'", b.toNat < 0x80 by decide +kernel) quote isQuote
  rw [Eval.expr, Eval.literal, Eval.unquote_quoted ascii]

variable (absent : quote ∉ s)
include absent

/-- Assigning a text in quotes. -/
theorem run_assign_quoted {name : Text} (isName : name.IsName) {source : Text}
    (laid : Lexeme.Laid [.name name, .equals, ⟨.string, quote :: s ++ [quote]⟩] source) :
    ∃ script, compile source = .ok script ∧
      script.program.unplaced =
        [.assign name (.literal .string (quote :: s ++ [quote]) .nowhere) .nowhere] ∧
      ∀ (budget : Nat) (x : Execution),
        script.run budget x = .ok () (x.define name (.text s.mended)) := by
  have wf : Stmt.AllWellFormed
      [.assign name (.literal .string (quote :: s ++ [quote]) .nowhere) .nowhere] :=
    ⟨⟨isName, .string isQuote absent⟩, trivial⟩
  obtain ⟨script, compiled, tree, runs⟩ :=
    run_laid (Stmt.lexemesAll_stand wf) (Stmt.spellsAll wf) laid
  refine ⟨script, compiled, tree, fun budget x => ?_⟩
  have ended : Eval.stmt (host budget) budget
      (.assign name (.literal .string (quote :: s ++ [quote]) .nowhere) .nowhere) (x.under (some source)) =
        .ok () ((x.under (some source)).define name (.text s.mended)) :=
    Eval.stmt_assign (by rw [expr_quoted isQuote]; rfl)
  exact runs (run_single ended)

end Quoted

end Script

/-- **A text in quotes is that text.** For each of the two quotes and every text without it, the source that
assigns the text in these quotes compiles to one assignment, and running it binds the name to the text with
U+FFFD for every byte that belongs to no character: so to the text itself if it is valid. Displaying the name
then, or the literal, writes that text and a line feed. -/
theorem quotation_verbatim {quote : UInt8} {s : Text} (isQuote : quote ∈ utf8 "\"'") (absent : quote ∉ s) :
    (∃ script : Script,
      Script.compile (utf8 "x = " ++ (quote :: s ++ [quote])) = .ok script ∧
      script.program.unplaced =
        [.assign (utf8 "x") (.literal .string (quote :: s ++ [quote]) .nowhere) .nowhere] ∧
      ∀ (budget : Nat) (x : Execution),
        script.run budget x = .ok () (x.define (utf8 "x") (.text s.mended))) ∧
    (s.isUtf8 = true → s.mended = s) ∧
    ∀ shown ∈ [Lexeme.name (utf8 "x"), ⟨.string, quote :: s ++ [quote]⟩], ∀ source : Text,
      Lexeme.Laid [.name Engine.displayName, .openParen, shown, .closeParen] source →
      ∃ script : Script, Script.compile source = .ok script ∧
        ∀ (budget : Nat) (x : Execution) (sink : Sink), x.CanDisplay →
          x.env.get? (utf8 "x") = some (.text s.mended) →
          x.sink.write (s.mended ++ [Text.newline]) = .ok sink →
          script.run (budget + 1) x = .ok () { x with sink := sink } := by
  have isName : (utf8 "x").IsName := ⟨⟨_, _, rfl, by decide, by decide +kernel⟩, by decide⟩
  refine ⟨Script.run_assign_quoted isQuote absent isName (Lexeme.laid_spaced _), Text.mended_of_isUtf8, ?_⟩
  rw [List.forall_mem_cons, List.forall_mem_singleton]
  constructor
  · intro source laid
    obtain ⟨script, compiled, runs⟩ := Script.run_display (e := .name (utf8 "x") .nowhere) isName laid
    refine ⟨script, compiled, fun budget x sink displays bound taken => ?_⟩
    have value : Eval.expr (host (budget + 1)) (.name (utf8 "x") .nowhere) (x.under (some source)) =
        .ok (.text s.mended) (x.under (some source)) := by
      rw [Execution.under, Eval.expr, Eval.variableValue, Env.lookup, bound]
      rfl
    exact runs displays value taken
  · intro source laid
    have spelled : LiteralKind.Spelled .string (quote :: s ++ [quote]) := .string isQuote absent
    obtain ⟨script, compiled, runs⟩ :=
      Script.run_display (e := .literal .string (quote :: s ++ [quote]) .nowhere) spelled laid
    refine ⟨script, compiled, fun budget x sink displays _ taken => ?_⟩
    have value : Eval.expr (host (budget + 1)) (.literal .string (quote :: s ++ [quote]) .nowhere)
        (x.under (some source)) = .ok (.text s.mended) (x.under (some source)) := by
      rw [Script.expr_quoted isQuote]
      rfl
    exact runs displays value taken

/-- A text with the other quote, a line feed, a NUL, a hash sign, a brace and a backslash, and at its end
two bytes that begin a character of three. -/
def Text.awkward : Text := utf8 "a\"\n\x00#\x7b\\" ++ [0xE2, 0x82]

/-- The awkward text in single quotes, what is bound, and what a following script displays. -/
theorem quotation_verbatim_awkward :
    (39 : UInt8) ∈ utf8 "\"'" ∧ 39 ∉ Text.awkward ∧
    ∃ assign display : Script, ∃ x : Execution,
      Script.compile (utf8 "x = " ++ (39 :: Text.awkward ++ [39])) = .ok assign ∧
      Script.compile (utf8 "DISPLAY(x)") = .ok display ∧
      assign.run 1 (Engine.initial.newExecution (.empty none)) = .ok () x ∧
      x.env.get? (utf8 "x") =
        some (.text (utf8 "a\"\n\x00#\x7b\\" ++ [0xEF, 0xBF, 0xBD, 0xEF, 0xBF, 0xBD])) ∧
      display.run 1 x = .ok () { x with sink :=
        ⟨#[utf8 "a\"\n\x00#\x7b\\" ++ [0xEF, 0xBF, 0xBD, 0xEF, 0xBF, 0xBD, 10]], none⟩ } := by
  have quote : (39 : UInt8) ∈ utf8 "\"'" := by decide
  have absent : (39 : UInt8) ∉ Text.awkward := by decide +kernel
  have mended : Text.awkward.mended =
      utf8 "a\"\n\x00#\x7b\\" ++ [0xEF, 0xBF, 0xBD, 0xEF, 0xBF, 0xBD] := by decide +kernel
  obtain ⟨⟨assign, compiled, -, runs⟩, -, shows⟩ := quotation_verbatim quote absent
  have laid : Lexeme.Laid [.name Engine.displayName, .openParen, .name (utf8 "x"), .closeParen]
      (utf8 "DISPLAY(x)") := Token.laid_of_tokens (by decide +kernel) (by decide +kernel)
  obtain ⟨display, compiledDisplay, displays⟩ :=
    shows (.name (utf8 "x")) List.mem_cons_self (utf8 "DISPLAY(x)") laid
  refine ⟨quote, absent, assign, display, _, compiled, compiledDisplay, runs 1 _, ?_, ?_⟩
  · rw [Execution.define, Table.get?_insert, if_pos rfl, mended]
  · refine displays 0 _ _ ?_ ?_ ?_
    · exact (Execution.canDisplay_initial _).define (by decide) _
    · rw [Execution.define, Table.get?_insert, if_pos rfl]
    · rw [mended]
      rfl

end LoopScript
