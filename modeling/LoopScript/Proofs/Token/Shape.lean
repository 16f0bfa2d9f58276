/-
# LoopScript.Proofs.Token.Shape — what the text of a token looks like

Some nodes of a tree keep the text of the token they were made from: names, literals and the words that
open loops. `Kind.Shaped` says what this text can be, in the terms in which trees are called well formed
(`LoopScript.Proofs.Print`). The class of a token is decided from its first character and from how far the
characters behind it belong to it, and `shaped_of_mem_tokens` shows that the text that is taken that way is
one of those that the class allows:

* a word has a letter first and letters and digits behind it, and it is no name if it is reserved
  (`ofWord_shaped`);
* a number is digits, with one point between digits if it is a float (`readNumber_shaped`);
* a string has its quote at both ends and nowhere else (`readString_shaped`).

The lexer sorts characters, and texts are bytes. A character that it knows is ASCII, and such a character
is a byte of its own (`bytesOf_class`).
-/
import LoopScript.Proofs.Print
import LoopScript.Proofs.Token.Cut
import LoopScript.Proofs.Tree.Marks

namespace LoopScript

set_option autoImplicit false

namespace Token

/-- What the text of a token looks like, for the classes whose text is kept in trees. -/
def Kind.Shaped (text : Text) : Kind → Prop
  | .identifier => text.IsName
  | .integer => LiteralKind.integer.Spelled text
  | .float => LiteralKind.float.Spelled text
  | .string => LiteralKind.string.Spelled text
  | .bool => LiteralKind.bool.Spelled text
  | .null => LiteralKind.null.Spelled text
  | .loopWord => text = utf8 "while" ∨ text = utf8 "until"
  | _ => True

/-- The token has a text that its class allows. -/
def Shaped (t : Token) : Prop := t.kind.Shaped t.text

theorem Shaped.as {t : Token} (shaped : t.Shaped) {kind : Kind} (same : t.kind = kind) :
    kind.Shaped t.text :=
  same ▸ shaped

/-! ## Characters and bytes -/

open Glyph

/-- A glyph of an ASCII character is one byte, whose number is that of the character. -/
theorem byte_of_ascii {gs : List Glyph} (genuine : Genuine gs) {g : Glyph} (member : g ∈ gs)
    (ascii : g.char.toNat < 0x80) : g.bytes = [UInt8.ofNat g.char.toNat] := by
  have small : g.char.val.toNat ≤ 0x7F := Nat.le_of_lt_succ ascii
  rw [bytes_of_ascii genuine member ascii, String.utf8EncodeChar, if_pos small]
  rfl

/-- Every byte of glyphs of an ASCII class belongs to the class of bytes that goes with it. -/
theorem bytesOf_class {P : Char → Bool} {Q : UInt8 → Prop}
    (ascii : ∀ c, P c = true → c.toNat < 0x80)
    (table : ∀ n < 0x80, P (Char.ofNat n) = true → Q (UInt8.ofNat n))
    {gs : List Glyph} (genuine : Genuine gs) (all : ∀ g ∈ gs, P g.char = true) :
    ∀ b ∈ bytesOf gs, Q b := by
  intro b inside
  obtain ⟨g, member, own⟩ := List.mem_flatMap.mp inside
  have small := ascii g.char (all g member)
  rw [byte_of_ascii genuine member small] at own
  rw [List.mem_singleton.mp own]
  apply table _ small
  rw [Char.ofNat_toNat]
  exact all g member

theorem digits_of_glyphs {gs : List Glyph} (genuine : Genuine gs)
    (all : ∀ g ∈ gs, isDigit g.char = true) : ∀ b ∈ bytesOf gs, Text.isDigit b = true := by
  refine bytesOf_class (P := isDigit) (fun c digit => ?_) (by decide +kernel) genuine all
  apply ascii_of_nameChar
  simp [isNameChar, digit]

/-- Digits behind a first one are a numeral. -/
theorem numeral_of_glyphs {g : Glyph} {gs : List Glyph} (genuine : Genuine (g :: gs))
    (all : ∀ h ∈ g :: gs, isDigit h.char = true) : (bytesOf (g :: gs)).IsNumeral := by
  refine ⟨?_, digits_of_glyphs genuine all⟩
  rw [bytesOf_cons]
  intro none
  exact genuine.bytes_ne_nil List.mem_cons_self (List.append_eq_nil_iff.mp none).1

/-- A letter and the letters and digits behind it are a word. -/
theorem word_of_glyphs {g : Glyph} {gs : List Glyph} (genuine : Genuine (g :: gs))
    (start : isNameStart g.char = true) (all : ∀ h ∈ gs, isNameChar h.char = true) :
    (bytesOf (g :: gs)).IsWord := by
  have name : isNameChar g.char = true := by simp [isNameChar, start]
  have byte := byte_of_ascii genuine List.mem_cons_self (ascii_of_nameChar name)
  have alone : Genuine [g] := by
    have split : Genuine ([g] ++ gs) := genuine
    exact split.parts.1
  refine ⟨UInt8.ofNat g.char.toNat, bytesOf gs, by rw [bytesOf_cons, byte]; rfl, ?_, ?_⟩
  · have letters : ∀ b ∈ bytesOf [g], Text.isLetter b = true := by
      refine bytesOf_class (P := isNameStart) (fun c letter => ?_) (by decide +kernel) alone ?_
      · apply ascii_of_nameChar
        simp [isNameChar, letter]
      · simpa using start
    apply letters
    simp [bytesOf_single, byte]
  · exact bytesOf_class (P := isNameChar) (fun c => ascii_of_nameChar) (by decide +kernel) genuine.tail all

/-! ## The shapes -/

/-- A word that is read as a name is not reserved, and the reserved ones are what their classes ask. -/
theorem ofWord_shaped {word : Text} (isWord : word.IsWord) : (Kind.ofWord word).Shaped word := by
  by_cases reserved : word ∈ keywords
  · have table : ∀ w ∈ keywords, (Kind.ofWord w).Shaped w := by
      simp only [keywords, List.forall_mem_cons]
      exact ⟨.inl rfl, .inr rfl, trivial, trivial, trivial, trivial, trivial, .bool (.inl rfl),
        .bool (.inr rfl), .null, List.forall_mem_nil _⟩
    exact table word reserved
  · have name : Kind.ofWord word = .identifier := by
      have free := reserved
      simp only [keywords, List.mem_cons, List.not_mem_nil, or_false, not_or] at free
      simp [Kind.ofWord, free]
    rw [name]
    exact ⟨isWord, reserved⟩

theorem readWord_shaped {g : Glyph} {rest : List Glyph} (genuine : Genuine (g :: rest))
    (start : isNameStart g.char = true) : (readWord g rest).1.Shaped := by
  have whole : g :: rest = g :: rest.takeWhile (fun h => isNameChar h.char) ++
      rest.dropWhile fun h => isNameChar h.char := by
    rw [List.cons_append, List.takeWhile_append_dropWhile]
  rw [whole] at genuine
  apply ofWord_shaped
  apply word_of_glyphs genuine.parts.1 start
  intro h member
  exact List.mem_takeWhile_imp (p := fun h : Glyph => isNameChar h.char) member

theorem singleKind?_shaped {c : Char} {kind : Kind} (found : singleKind? c = some kind) (text : Text) :
    kind.Shaped text := by
  unfold singleKind? at found
  split at found <;> cases found <;> trivial

theorem doubleKinds?_shaped {c : Char} {double single : Kind}
    (found : doubleKinds? c = some (double, single)) (text : Text) :
    double.Shaped text ∧ single.Shaped text := by
  unfold doubleKinds? at found
  split at found <;> cases found <;> exact ⟨trivial, trivial⟩

/-- A number is digits, or digits around a point. -/
theorem readNumber_shaped {g : Glyph} {rest : List Glyph} (genuine : Genuine (g :: rest))
    (digit : isDigit g.char = true) : (readNumber g rest).1.Shaped := by
  have whole : rest = rest.takeWhile (fun h => isDigit h.char) ++ rest.dropWhile fun h => isDigit h.char :=
    List.takeWhile_append_dropWhile.symm
  have front : ∀ h ∈ g :: rest.takeWhile (fun h => isDigit h.char), isDigit h.char = true := by
    intro h member
    rcases List.mem_cons.mp member with rfl | member
    · exact digit
    · exact List.mem_takeWhile_imp (p := fun h : Glyph => isDigit h.char) member
  have parts := genuine
  rw [whole, ← List.cons_append] at parts
  have integer := numeral_of_glyphs parts.parts.1 front
  unfold readNumber
  dsimp only
  split
  · next point d after found =>
      split
      · next decimal =>
          have behind : Genuine (point :: d :: after) := found ▸ parts.parts.2
          have split : d :: after = d :: after.takeWhile (fun h => isDigit h.char) ++
              after.dropWhile fun h => isDigit h.char := by
            rw [List.cons_append, List.takeWhile_append_dropWhile]
          have fraction : (bytesOf (d :: after.takeWhile fun h => isDigit h.char)).IsNumeral := by
            have rest := behind.tail
            rw [split] at rest
            refine numeral_of_glyphs rest.parts.1 fun h member => ?_
            rcases List.mem_cons.mp member with rfl | member
            · exact decimal.2
            · exact List.mem_takeWhile_imp (p := fun h : Glyph => isDigit h.char) member
          have dot : point.bytes = utf8 "." := by
            rw [bytes_of_ascii behind List.mem_cons_self (by rw [decimal.1]; decide), decimal.1]
            rfl
          have spelled := LiteralKind.Spelled.float integer fraction
          rw [← dot, List.append_assoc, ← bytesOf_cons, ← bytesOf_append] at spelled
          exact spelled
      · exact .integer integer
  · exact .integer integer

/-- A string has its quote at both ends and nowhere else. -/
theorem readString_shaped {g : Glyph} {rest : List Glyph} (genuine : Genuine (g :: rest))
    (quote : g.char = '"' ∨ g.char = '\'') : (readString g rest).1.Shaped := by
  have whole : rest = rest.takeWhile (fun h => h.char != g.char) ++
      rest.dropWhile fun h => h.char != g.char := List.takeWhile_append_dropWhile.symm
  unfold readString
  split
  · next closing after found =>
      have member : closing ∈ rest := by
        rw [whole, found]
        simp
      have same : closing.char = g.char := by
        have stops := List.head?_dropWhile_not (fun h : Glyph => h.char != g.char) rest
        rw [found] at stops
        simpa using stops
      obtain ⟨b, isQuote, ascii, char, bytes⟩ : ∃ b ∈ utf8 "\"'", b.toNat < 0x80 ∧
          g.char = Char.ofNat b.toNat ∧ String.utf8EncodeChar g.char = [b] := by
        rcases quote with char | char <;> rw [char]
        · exact ⟨34, by decide, by decide, by decide, rfl⟩
        · exact ⟨39, by decide, by decide, by decide, rfl⟩
      have small : g.char.toNat < 0x80 := by
        rcases quote with char | char <;> rw [char] <;> decide
      have opening : g.bytes = [b] := (bytes_of_ascii genuine List.mem_cons_self small).trans bytes
      have ending : closing.bytes = [b] := by
        rw [bytes_of_ascii genuine (List.mem_cons_of_mem g member) (same ▸ small), same, bytes]
      have absent : b ∉ bytesOf (rest.takeWhile fun h => h.char != g.char) := by
        intro again
        obtain ⟨h, taken, inside⟩ := List.mem_flatMap.mp again
        have other := List.mem_takeWhile_imp (p := fun h : Glyph => h.char != g.char) taken
        have listed : h ∈ g :: rest :=
          List.mem_cons_of_mem g ((List.takeWhile_prefix _).subset taken)
        have equal := char_of_ascii genuine listed inside ascii
        rw [equal, ← char] at other
        simp at other
      have spelled := LiteralKind.Spelled.string isQuote absent
      rw [Shaped, take, bytesOf_cons, bytesOf_append, bytesOf_single, opening, ending]
      exact spelled
  · trivial

/-- A token that is read has a text that its class allows. -/
theorem read_shaped {g : Glyph} {rest : List Glyph} (genuine : Genuine (g :: rest)) :
    (read g rest).1.Shaped := by
  unfold read
  split
  · next kind _ found => exact singleKind?_shaped found _
  · next double single _ found =>
      cases rest with
      | nil => exact (doubleKinds?_shaped found _).2
      | cons h rest =>
          rw [readEquals]
          split
          · exact (doubleKinds?_shaped found _).1
          · exact (doubleKinds?_shaped found _).2
  · split
    · next quote => exact readString_shaped genuine quote
    · split
      · next start => exact readWord_shaped genuine start
      · split
        · next digit => exact readNumber_shaped genuine digit
        · trivial

/-- The tokens of a source have texts that their classes allow. -/
theorem shaped_of_mem_tokens {source : Text} {t : Token} (member : t ∈ tokens source) : t.Shaped := by
  have genuine := genuine_ofText source
  obtain ⟨front, g, rest, split, -, rfl⟩ := read_of_mem_tokensOf _ genuine t member
  rw [split] at genuine
  exact read_shaped genuine.parts.2

end Token

end LoopScript
