/-
# LoopScript.Proofs.Token.Layout — a text that lays words out is read as these words

Lexemes are laid out in a text if they stand in it in their order, with blanks and comments around them
(`Lexeme.Laid`). Between two of them there may be nothing at all, unless the second would be read into the
first: `x=1` has three words, and `while x` would have one without its space (`Lexeme.Apart`).

A layout is read as the lexemes that it lays out (`tokens_laid`). A gap is skipped whatever it is made of
(`skipBlanks_gap`), and a lexeme ends where something stands that does not extend it (`read_laid`). Single
spaces are one layout of any lexemes (`laid_spaced`).
-/
import LoopScript.Proofs.Token.Lexeme

namespace LoopScript

set_option autoImplicit false

namespace Lexeme

/-- What follows the lexeme begins with an ASCII byte that is not read into it, unless nothing follows. -/
def Apart (l : Lexeme) (rest : Text) : Prop :=
  ∀ b ∈ rest.head?, b.toNat < 0x80 ∧ l.kind.extendedBy (Char.ofNat b.toNat) = false

/-- A text that has these lexemes in their order, with gaps around them. -/
inductive Laid : List Lexeme → Text → Prop where
  | last {gap : Text} : Token.Gap [] gap → Laid [] gap
  | next {l : Lexeme} {ls : List Lexeme} {gap rest : Text} :
      Token.Gap (l.text ++ rest) gap → l.Apart rest → Laid ls rest →
      Laid (l :: ls) (gap ++ (l.text ++ rest))

/-- The texts of lexemes with a space between each two. -/
def spaced (ls : List Lexeme) : Text := Text.joinWith [Text.space] (ls.map Lexeme.text)

/-- Nothing is read into a lexeme from behind a blank. -/
theorem apart_blank (l : Lexeme) {b : UInt8} (blank : b ∈ utf8 " \t\r\n") (rest : Text) :
    l.Apart (b :: rest) := by
  rintro c ⟨⟩
  obtain ⟨ascii, isBlank⟩ : b.toNat < 0x80 ∧ Token.isBlank (Char.ofNat b.toNat) :=
    (show ∀ b ∈ utf8 " \t\r\n", b.toNat < 0x80 ∧ Token.isBlank (Char.ofNat b.toNat) by
      decide +kernel) b blank
  exact ⟨ascii, Token.extendedBy_blank isBlank l.kind⟩

/-- A layout with a blank in front is a layout. -/
theorem Laid.blank {b : UInt8} (blank : b ∈ utf8 " \t\r\n") {ls : List Lexeme} {text : Text}
    (laid : Laid ls text) : Laid ls (b :: text) := by
  cases laid with
  | last gap => exact .last (.blank blank gap)
  | next gap apart behind => exact .next (.blank blank gap) apart behind

/-- A lexeme and a space in front of a layout. -/
theorem Laid.word (l : Lexeme) {ls : List Lexeme} {text : Text} (laid : Laid ls text) :
    Laid (l :: ls) (l.text ++ Text.space :: text) := by
  have space : Text.space ∈ utf8 " \t\r\n" := by decide
  exact .next .nothing (l.apart_blank space text) (laid.blank space)

/-- Single spaces lay any lexemes out. -/
theorem laid_spaced : ∀ ls : List Lexeme, Laid ls (spaced ls)
  | [] => .last .nothing
  | [l] => by
      have alone : Laid [l] ([] ++ (l.text ++ [])) := .next .nothing nofun (.last .nothing)
      rwa [List.nil_append, List.append_nil] at alone
  | l :: next :: others => by
      have text : spaced (l :: next :: others) = l.text ++ Text.space :: spaced (next :: others) := by
        simp only [spaced, List.map_cons, Text.joinWith_cons_cons, List.append_assoc, List.cons_append,
          List.nil_append]
      rw [text]
      exact (laid_spaced (next :: others)).word l

end Lexeme

/-- The glyphs of a text with an ASCII byte in it: those before the byte, and those from the byte on. -/
theorem Glyph.place_append_cons {b : UInt8} (ascii : b.toNat < 0x80) (before rest : Text) (p : Position) :
    ∃ q, place p (Text.runes (before ++ b :: rest)) =
      place p before.runes ++ place q (Text.runes (b :: rest)) := by
  rw [Text.runes_append_ascii ascii, place_append, Text.runes_cons_ascii ascii]
  exact ⟨_, rfl⟩

namespace Token

/-! ## Gaps are skipped -/

/-- In a comment everything up to a line feed is skipped. -/
theorem skipBlanksIn_comment {more : List Glyph} : ∀ gs : List Glyph, (∀ g ∈ gs, g.char ≠ '\n') →
    skipBlanksIn true (gs ++ more) = skipBlanksIn true more
  | [], _ => rfl
  | g :: gs, inside => by
      have going : (g.char != '\n') = true := by simpa using inside g List.mem_cons_self
      rw [List.cons_append, skipBlanksIn, going]
      exact skipBlanksIn_comment gs fun h member => inside h (List.mem_cons_of_mem g member)

/-- A comment ends at a line feed, which is skipped as a blank. -/
theorem skipBlanksIn_comment_newline {d : Glyph} (feed : d.char = '\n') (more : List Glyph) :
    skipBlanksIn true (d :: more) = skipBlanks (d :: more) := by
  rw [skipBlanks, skipBlanksIn, skipBlanksIn, feed]
  rfl

/-- A gap is skipped, and reading goes on behind it. -/
theorem skipBlanks_gap {rest gap : Text} (isGap : Gap rest gap) : ∀ p : Position,
    ∃ q, skipBlanks (Glyph.place p (gap ++ rest).runes) = skipBlanks (Glyph.place q rest.runes) := by
  induction isGap with
  | nothing => exact fun p => ⟨p, rfl⟩
  | @blank b gap isOne _ ih =>
      intro p
      obtain ⟨ascii, blank⟩ : b.toNat < 0x80 ∧ isBlank (Char.ofNat b.toNat) :=
        (show ∀ b ∈ utf8 " \t\r\n", b.toNat < 0x80 ∧ isBlank (Char.ofNat b.toNat) by
          decide +kernel) b isOne
      obtain ⟨g, q, glyphs, char⟩ := Glyph.place_cons_ascii ascii (gap ++ rest) p
      obtain ⟨r, skipped⟩ := ih q
      refine ⟨r, ?_⟩
      rw [List.cons_append, glyphs, skipBlanks, skipBlanksIn, char, if_pos blank]
      exact skipped
  | @comment body gap absent ends _ ih =>
      intro p
      have text : utf8 "#" ++ body ++ gap ++ rest = 35 :: (body ++ (gap ++ rest)) := by
        simp only [List.append_assoc]
        rfl
      obtain ⟨g, q, glyphs, hash⟩ :=
        Glyph.place_cons_ascii (b := 35) (by decide) (body ++ (gap ++ rest)) p
      have begins : skipBlanks (Glyph.place p (utf8 "#" ++ body ++ gap ++ rest).runes) =
          skipBlanksIn true (Glyph.place q (body ++ (gap ++ rest)).runes) := by
        rw [text, glyphs, skipBlanks, skipBlanksIn, hash]
        rfl
      have inside := Glyph.char_ne_of_notMem (d := Text.newline) (by decide) absent q
      rcases ends with feed | ended
      · obtain ⟨others, rfl⟩ := List.head?_eq_some_iff.mp feed
        obtain ⟨r, split⟩ :=
          Glyph.place_append_cons (b := Text.newline) (by decide) body (others ++ rest) q
        obtain ⟨d, u, behind, char⟩ :=
          Glyph.place_cons_ascii (b := Text.newline) (by decide) (others ++ rest) r
        obtain ⟨v, skipped⟩ := ih r
        refine ⟨v, ?_⟩
        rw [begins, List.cons_append, split, skipBlanksIn_comment _ inside, ← skipped, List.cons_append,
          behind]
        exact skipBlanksIn_comment_newline char _
      · -- The comment ends with the text.
        obtain ⟨rfl, rfl⟩ := List.append_eq_nil_iff.mp ended
        refine ⟨p, ?_⟩
        rw [begins, List.append_nil, List.append_nil,
          ← List.append_nil (Glyph.place q (Text.runes body))]
        exact skipBlanksIn_comment _ inside

/-! ## Layouts are read -/

/-- A lexeme that stands for itself is read before anything that does not extend it. -/
theorem read_laid {l : Lexeme} (stands : l.Stands) {rest : Text} (apart : l.Apart rest) (p : Position) :
    ∃ g more q, skipBlanks (Glyph.place p (l.text ++ rest).runes) = g :: more ∧
      read g more = (⟨l.kind, l.text, g.pos⟩, Glyph.place q rest.runes) := by
  obtain ⟨closed, alone⟩ := stands
  obtain ⟨g, more, glyphs, begins, read⟩ := alone p
  cases rest with
  | nil => exact ⟨g, more, p, by rw [List.append_nil, glyphs, begins], read⟩
  | cons b rest =>
      obtain ⟨ascii, ends⟩ := apart b rfl
      obtain ⟨q, split⟩ := Glyph.place_append_cons ascii l.text rest p
      obtain ⟨d, r, behind, char⟩ := Glyph.place_cons_ascii ascii rest q
      rw [glyphs] at split
      have whole := read_append_apart (d := d) (Glyph.place r (Text.runes rest)) g more
        (by rw [read]; exact closed) (by rw [read, char]; exact ends)
      refine ⟨g, more ++ Glyph.place q (Text.runes (b :: rest)), q, ?_, ?_⟩
      · rw [split]
        exact skipBlanksIn_append_found _ _ false begins
      · rw [behind, whole, read]
        rfl

theorem lexemes_laid {ls : List Lexeme} {text : Text} (laid : Lexeme.Laid ls text) :
    (∀ l ∈ ls, l.Stands) → ∀ p : Position, (tokensOf (Glyph.place p text.runes)).map lexeme = ls := by
  induction laid with
  | @last gap isGap =>
      intro _ p
      obtain ⟨q, skipped⟩ := skipBlanks_gap isGap p
      rw [List.append_nil] at skipped
      rw [tokensOf_of_nil skipped]
      rfl
  | @next l ls gap rest isGap apart _ ih =>
      intro stand p
      obtain ⟨first, others⟩ := List.forall_mem_cons.mp stand
      obtain ⟨q, skipped⟩ := skipBlanks_gap isGap p
      obtain ⟨g, more, r, found, read⟩ := read_laid first apart q
      rw [tokensOf_of_cons (skipped.trans found), read, List.map_cons, ih others r]
      rfl

/-- A layout of lexemes that stand for themselves has these lexemes as its tokens. -/
theorem tokens_laid {ls : List Lexeme} {text : Text} (laid : Lexeme.Laid ls text)
    (stand : ∀ l ∈ ls, l.Stands) : (tokens text).map lexeme = ls :=
  lexemes_laid laid stand .start

/-- A source of lexemes with spaces between them has these lexemes as its tokens. -/
theorem tokens_spaced {ls : List Lexeme} (stand : ∀ l ∈ ls, l.Stands) :
    (tokens (Lexeme.spaced ls)).map lexeme = ls :=
  tokens_laid (Lexeme.laid_spaced ls) stand

end Token

end LoopScript
