/-
# LoopScript.Proofs.Token.Lexeme — words that are read as themselves

A `Lexeme` is a token without its place. It stands for itself if its text, read alone, is that token and
nothing is left (`Lexeme.Stands`). How lexemes that do so can be written behind each other is the subject
of `LoopScript.Proofs.Token.Layout`.

What stands for itself: words of letters, digits and underscores (`word_stands`), numbers, strings that do
not hold their own quote, and the signs of the language. For all but strings the reason is the same: the
text is made of characters of one class, and reading takes as many of them as there are.
-/
import LoopScript.Proofs.Token.Join
import LoopScript.Proofs.Token.Tiling

namespace LoopScript

set_option autoImplicit false

/-- A token without its place. -/
structure Lexeme where
  kind : Token.Kind
  text : Text
deriving DecidableEq, Repr

def Token.lexeme (t : Token) : Lexeme := ⟨t.kind, t.text⟩

/-- The text of the lexeme, wherever it is written, is read as that lexeme and nothing is left of it. -/
def Lexeme.Stands (l : Lexeme) : Prop :=
  l.kind ≠ .unterminated ∧ ∀ p : Position, ∃ g more, Glyph.place p l.text.runes = g :: more ∧
    Token.skipBlanks (g :: more) = g :: more ∧ Token.read g more = (⟨l.kind, l.text, g.pos⟩, [])

namespace Text

def isLetter (b : UInt8) : Bool := (97 ≤ b && b ≤ 122) || (65 ≤ b && b ≤ 90) || b == 95

/-- A letter, and then letters and digits. -/
def IsWord (t : Text) : Prop :=
  ∃ (b : UInt8) (rest : Text), t = b :: rest ∧ isLetter b ∧ ∀ c ∈ rest, isLetter c ∨ isDigit c

def IsNumeral (t : Text) : Prop := t ≠ [] ∧ ∀ b ∈ t, isDigit b

theorem ascii_of_digit {b : UInt8} (digit : isDigit b) :
    b.toNat < 0x80 ∧ Token.isDigit (Char.ofNat b.toNat) := by
  have table : ∀ n < 256, isDigit (UInt8.ofNat n) → n < 0x80 ∧ Token.isDigit (Char.ofNat n) := by
    decide +kernel
  exact table b.toNat b.toNat_lt (by rwa [UInt8.ofNat_toNat])

theorem ascii_of_letter {b : UInt8} (letter : isLetter b) :
    b.toNat < 0x80 ∧ Token.isNameStart (Char.ofNat b.toNat) := by
  have table : ∀ n < 256, isLetter (UInt8.ofNat n) → n < 0x80 ∧ Token.isNameStart (Char.ofNat n) := by
    decide +kernel
  exact table b.toNat b.toNat_lt (by rwa [UInt8.ofNat_toNat])

theorem ascii_of_nameByte {b : UInt8} (inside : isLetter b ∨ isDigit b) :
    b.toNat < 0x80 ∧ Token.isNameChar (Char.ofNat b.toNat) := by
  rcases inside with letter | digit
  · obtain ⟨ascii, start⟩ := ascii_of_letter letter
    exact ⟨ascii, by simp [Token.isNameChar, start]⟩
  · obtain ⟨ascii, char⟩ := ascii_of_digit digit
    exact ⟨ascii, by simp [Token.isNameChar, char]⟩

end Text

/-! ## Glyphs of a text -/

namespace Glyph

/-- The first glyph of a text that begins with an ASCII byte, and those behind it. -/
theorem place_cons_ascii {b : UInt8} (ascii : b.toNat < 0x80) (rest : Text) (p : Position) :
    ∃ g q, place p (Text.runes (b :: rest)) = g :: place q rest.runes ∧ g.char = Char.ofNat b.toNat := by
  rw [Text.runes_cons_ascii ascii, place]
  exact ⟨_, _, rfl, rfl⟩

/-- The glyphs around an ASCII byte. -/
theorem place_append_ascii {b : UInt8} (ascii : b.toNat < 0x80) (before rest : Text) (p : Position) :
    ∃ g q, place p (Text.runes (before ++ b :: rest)) = place p before.runes ++ g :: place q rest.runes ∧
      g.char = Char.ofNat b.toNat := by
  rw [Text.runes_append_ascii ascii, place_append, place]
  exact ⟨_, _, rfl, rfl⟩

/-- Where every byte is an ASCII byte of a class, every glyph is of that class. -/
theorem all_place {P : Char → Bool} : ∀ {t : Text} (p : Position),
    (∀ b ∈ t, b.toNat < 0x80 ∧ P (Char.ofNat b.toNat)) → ∀ h ∈ place p t.runes, P h.char = true
  | [], _, _ => nofun
  | b :: rest, p, all => by
      obtain ⟨ascii, first⟩ := all b List.mem_cons_self
      obtain ⟨g, q, glyphs, char⟩ := place_cons_ascii ascii rest p
      rw [glyphs]
      intro h member
      rcases List.mem_cons.mp member with rfl | later
      · rw [char]
        exact first
      · exact all_place q (fun c inside => all c (List.mem_cons_of_mem b inside)) h later

/-- A glyph of a text that does not have an ASCII byte is not that character. -/
theorem char_ne_of_notMem {d : UInt8} (ascii : d.toNat < 0x80) {t : Text} (absent : d ∉ t)
    (p : Position) : ∀ h ∈ place p t.runes, h.char ≠ Char.ofNat d.toNat := by
  intro h member same
  have read : h.rune ∈ t.runes := by
    rw [← map_rune_place t.runes p]
    exact List.mem_map_of_mem member
  obtain ⟨b, rest, first⟩ := Text.mem_runesAfter read
  have char : (Rune.first b rest).char = Char.ofNat d.toNat := by
    rw [← first]
    exact same
  have small : (Char.ofNat d.toNat).toNat < 0x80 := by
    rw [Char.ofNat, dif_pos (.inl (by omega))]
    exact ascii
  have bytes : h.rune.bytes = [d] := by
    rw [first, Rune.bytes_first_of_ascii (char ▸ small), char, Rune.utf8EncodeChar_ascii ascii]
  have inside : d ∈ Text.ofRunes t.runes := by
    refine List.mem_flatMap.mpr ⟨h.rune, read, ?_⟩
    rw [bytes]
    exact List.mem_singleton_self d
  rw [Text.bytes_runes] at inside
  exact absent inside

end Glyph

namespace Token

/-! ## Which way reading goes -/

/-- The characters that are signs or begin one. -/
def signs : List Char := ['+', '-', '&', '*', '/', '%', '(', ')', '{', '}', ',', ';', '!', '=', '>', '<']

theorem singleKind?_eq_none {c : Char} (other : c ∉ signs) : singleKind? c = none := by
  unfold singleKind?
  split
  case h_13 => rfl
  all_goals exact absurd (by decide) other

theorem doubleKinds?_eq_none {c : Char} (other : c ∉ signs) : doubleKinds? c = none := by
  unfold doubleKinds?
  split
  case h_5 => rfl
  all_goals exact absurd (by decide) other

/-- Reading begins at a character that is no blank and no hash sign. -/
theorem skipBlanks_cons {g : Glyph} (rest : List Glyph) (visible : isBlank g.char = false)
    (noHash : g.char ≠ '#') : skipBlanks (g :: rest) = g :: rest := by
  rw [skipBlanks, skipBlanksIn, visible, if_neg Bool.false_ne_true, if_neg noHash]

/-- Neither letters nor digits are signs, quotes, hash signs or blanks. -/
theorem nameChar_spec {c : Char} (inside : isNameChar c) :
    c ∉ signs ∧ ¬ (c = '"' ∨ c = '\'') ∧ c ≠ '#' ∧ isBlank c = false := by
  -- As a `Bool`, since a statement about all characters would be decided for each of them.
  have others : (('"' :: '\'' :: '#' :: ' ' :: '\t' :: '\r' :: '\n' :: signs).all fun d => !isNameChar d) =
      true := by decide
  have outside : c ∉ '"' :: '\'' :: '#' :: ' ' :: '\t' :: '\r' :: '\n' :: signs := by
    intro member
    have outside := List.all_eq_true.mp others c member
    rw [inside] at outside
    cases outside
  simp only [List.mem_cons, not_or] at outside
  obtain ⟨double, single, hash, space, tab, feed, line, sign⟩ := outside
  refine ⟨?_, ?_, hash, ?_⟩
  · simpa [signs] using sign
  · exact fun quote => quote.elim double single
  · simp [isBlank, space, tab, feed, line]

theorem read_of_nameStart {g : Glyph} (start : isNameStart g.char) (rest : List Glyph) :
    read g rest = readWord g rest := by
  obtain ⟨noSign, noQuote, -⟩ := nameChar_spec (c := g.char) (by simp [isNameChar, start])
  rw [read, singleKind?_eq_none noSign, doubleKinds?_eq_none noSign]
  simp only [noQuote, if_false, start, if_true]

/-- A digit is no letter. -/
theorem isNameStart_of_digit {c : Char} (digit : isDigit c) : isNameStart c = false := by
  simp only [isDigit, Bool.and_eq_true, decide_eq_true_eq, Char.le_def, UInt32.le_iff_toNat_le] at digit
  have high : c.val.toNat ≤ 57 := digit.2
  have small : ¬ 'a' ≤ c := by
    rw [Char.le_def, UInt32.le_iff_toNat_le]
    exact fun le => absurd (Nat.le_trans le high) (by decide)
  have capital : ¬ 'A' ≤ c := by
    rw [Char.le_def, UInt32.le_iff_toNat_le]
    exact fun le => absurd (Nat.le_trans le high) (by decide)
  have underscore : c ≠ '_' := by
    rintro rfl
    exact absurd high (by decide)
  simp [isNameStart, small, capital, underscore]

theorem read_of_digit {g : Glyph} (digit : isDigit g.char) (rest : List Glyph) :
    read g rest = readNumber g rest := by
  obtain ⟨noSign, noQuote, -⟩ := nameChar_spec (c := g.char) (by simp [isNameChar, digit])
  have noLetter := isNameStart_of_digit digit
  rw [read, singleKind?_eq_none noSign, doubleKinds?_eq_none noSign]
  simp only [noQuote, if_false, noLetter, Bool.false_eq_true, digit, if_true]

theorem read_of_quote {g : Glyph} (quote : g.char = '"' ∨ g.char = '\'') (rest : List Glyph) :
    read g rest = readString g rest := by
  have noSign : g.char ∉ signs := by
    rcases quote with char | char <;> rw [char] <;> decide
  rw [read, singleKind?_eq_none noSign, doubleKinds?_eq_none noSign]
  simp only [quote, if_true]

end Token

/-! ## What stands for itself -/

/-- A text whose glyphs are all taken into one token stands for that token. -/
theorem stands_of_take {kind : Token.Kind} {t : Text} (closed : kind ≠ .unterminated)
    (taken : ∀ p, ∃ g more, Glyph.place p t.runes = g :: more ∧ Token.isBlank g.char = false ∧
      g.char ≠ '#' ∧ Token.read g more = Token.take kind g more []) : Lexeme.Stands ⟨kind, t⟩ := by
  refine ⟨closed, fun p => ?_⟩
  obtain ⟨g, more, glyphs, visible, noHash, read⟩ := taken p
  have bytes : Glyph.bytesOf (g :: more) = t := by
    rw [← glyphs, Glyph.bytesOf_place, Text.bytes_runes]
  refine ⟨g, more, glyphs, Token.skipBlanks_cons more visible noHash, ?_⟩
  rw [read, Token.take, bytes]

/-- A word stands for the token of its class. -/
theorem word_stands {t : Text} (word : t.IsWord) : Lexeme.Stands ⟨.ofWord t, t⟩ := by
  obtain ⟨b, rest, rfl, letter, others⟩ := word
  obtain ⟨ascii, start⟩ := Text.ascii_of_letter letter
  have closed : Token.Kind.ofWord (b :: rest) ≠ .unterminated := by
    intro same
    have legal := Token.legal_ofWord (b :: rest)
    rw [same] at legal
    exact legal
  refine stands_of_take closed fun p => ?_
  obtain ⟨g, q, glyphs, char⟩ := Glyph.place_cons_ascii ascii rest p
  rw [← char] at start
  obtain ⟨-, -, noHash, visible⟩ := Token.nameChar_spec (c := g.char) (by simp [Token.isNameChar, start])
  have all := Glyph.all_place q fun c inside => Text.ascii_of_nameByte (others c inside)
  refine ⟨g, _, glyphs, visible, noHash, ?_⟩
  have bytes : Glyph.bytesOf (g :: Glyph.place q rest.runes) = b :: rest := by
    rw [← glyphs, Glyph.bytesOf_place, Text.bytes_runes]
  rw [Token.read_of_nameStart start, Token.readWord, List.takeWhile_eq_self_iff.mpr all,
    List.dropWhile_eq_nil_iff.mpr all, bytes]

theorem integer_stands {t : Text} (numeral : t.IsNumeral) : Lexeme.Stands ⟨.integer, t⟩ := by
  obtain ⟨some, digits⟩ := numeral
  obtain ⟨b, rest, rfl⟩ := List.exists_cons_of_ne_nil some
  obtain ⟨ascii, digit⟩ := Text.ascii_of_digit (digits b List.mem_cons_self)
  refine stands_of_take (by decide) fun p => ?_
  obtain ⟨g, q, glyphs, char⟩ := Glyph.place_cons_ascii ascii rest p
  rw [← char] at digit
  obtain ⟨-, -, noHash, visible⟩ := Token.nameChar_spec (c := g.char) (by simp [Token.isNameChar, digit])
  have all := Glyph.all_place q fun c inside =>
    Text.ascii_of_digit (digits c (List.mem_cons_of_mem b inside))
  refine ⟨g, _, glyphs, visible, noHash, ?_⟩
  rw [Token.read_of_digit digit, Token.readNumber, List.takeWhile_eq_self_iff.mpr all,
    List.dropWhile_eq_nil_iff.mpr all]

theorem float_stands {whole fraction : Text} (first : whole.IsNumeral) (second : fraction.IsNumeral) :
    Lexeme.Stands ⟨.float, whole ++ 46 :: fraction⟩ := by
  obtain ⟨some, digits⟩ := first
  obtain ⟨b, rest, rfl⟩ := List.exists_cons_of_ne_nil some
  obtain ⟨more, decimals⟩ := second
  obtain ⟨d, after, rfl⟩ := List.exists_cons_of_ne_nil more
  obtain ⟨ascii, digit⟩ := Text.ascii_of_digit (digits b List.mem_cons_self)
  obtain ⟨asciiDecimal, decimal⟩ := Text.ascii_of_digit (decimals d List.mem_cons_self)
  refine stands_of_take (by decide) fun p => ?_
  obtain ⟨g, q, glyphs, char⟩ := Glyph.place_cons_ascii ascii (rest ++ 46 :: d :: after) p
  obtain ⟨point, r, parts, dot⟩ := Glyph.place_append_ascii (b := 46) (by decide) rest (d :: after) q
  obtain ⟨h, u, behind, charDecimal⟩ := Glyph.place_cons_ascii asciiDecimal after r
  rw [← char] at digit
  rw [← charDecimal] at decimal
  obtain ⟨-, -, noHash, visible⟩ := Token.nameChar_spec (c := g.char) (by simp [Token.isNameChar, digit])
  have all := Glyph.all_place q fun c inside =>
    Text.ascii_of_digit (digits c (List.mem_cons_of_mem b inside))
  have allDecimals := Glyph.all_place u fun c inside =>
    Text.ascii_of_digit (decimals c (List.mem_cons_of_mem d inside))
  have isPoint : point.char = '.' := dot
  have noDigit : Token.isDigit point.char = false := by
    rw [isPoint]
    decide
  rw [parts, behind] at glyphs
  refine ⟨g, _, glyphs, visible, noHash, ?_⟩
  rw [Token.read_of_digit digit, Token.readNumber, Token.takeWhile_append_stop noDigit,
    Token.dropWhile_append_stop noDigit, List.takeWhile_eq_self_iff.mpr all,
    List.dropWhile_eq_nil_iff.mpr all]
  simp only [List.nil_append, isPoint, decimal, and_self, if_true]
  rw [List.takeWhile_eq_self_iff.mpr allDecimals, List.dropWhile_eq_nil_iff.mpr allDecimals]

/-- A text in quotes that does not hold the quote stands for a string, whatever else it holds. -/
theorem string_stands {quote : UInt8} {content : Text} (isQuote : quote ∈ utf8 "\"'")
    (absent : quote ∉ content) : Lexeme.Stands ⟨.string, quote :: content ++ [quote]⟩ := by
  have ascii : quote.toNat < 0x80 := (show ∀ b ∈ utf8 "\"'", b.toNat < 0x80 by decide +kernel) quote isQuote
  have either : Char.ofNat quote.toNat = '"' ∨ Char.ofNat quote.toNat = '\'' :=
    (show ∀ b ∈ utf8 "\"'", Char.ofNat b.toNat = '"' ∨ Char.ofNat b.toNat = '\'' by decide +kernel)
      quote isQuote
  refine stands_of_take (by decide) fun p => ?_
  obtain ⟨g, q, glyphs, char⟩ := Glyph.place_cons_ascii ascii (content ++ [quote]) p
  obtain ⟨closing, r, parts, again⟩ := Glyph.place_append_ascii ascii content [] q
  have inside : ∀ h ∈ Glyph.place q content.runes, (h.char != g.char) = true := by
    intro h member
    rw [char]
    simpa using Glyph.char_ne_of_notMem ascii absent q h member
  have stops : (closing.char != g.char) = false := by
    rw [again, char]
    simp
  rw [← char] at either
  rw [parts] at glyphs
  refine ⟨g, _, glyphs, ?_, ?_, ?_⟩
  · rcases either with same | same <;> rw [same] <;> decide
  · rcases either with same | same <;> rw [same] <;> decide
  · rw [Token.read_of_quote either, Token.readString]
    rw [Token.takeWhile_append_stop (p := fun c => c != g.char) stops,
      Token.dropWhile_append_stop (p := fun c => c != g.char) stops,
      List.takeWhile_eq_self_iff.mpr inside, List.dropWhile_eq_nil_iff.mpr inside]
    rfl

/-- Every operator of the language stands for itself. -/
theorem operator_stands {op : Operator} {level : Level} (known : op.level? = some level) :
    Lexeme.Stands ⟨.operator op, op.spelling⟩ := by
  cases op
  case other => cases known
  all_goals exact ⟨by decide, fun p => ⟨_, _, rfl, rfl, rfl⟩⟩

end LoopScript
