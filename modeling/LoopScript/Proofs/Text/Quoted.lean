/-
# LoopScript.Proofs.Text.Quoted — what is quoted can be read back

Between quotes every rune is written so that its end can be told from what is written, and what it was from
that too (`ReadsBack`): a character that stands for itself is no backslash and no quote; behind a backslash
one character tells how many digits follow; and a code of two digits stands for a character below 128, and
for a byte from there on, so that a byte that belongs to no character is never taken for the character of
the same number.

`dequote` reads the runes back, one after the other, up to the quote that stands for itself. It undoes `quote`
on every text (`dequote_quote`), so no two texts are quoted alike.
-/
import LoopScript.Proofs.Text.Chars
import LoopScript.Text.Quoted

namespace LoopScript.Text

set_option autoImplicit false

/-! ## Reading -/

def hexValue (c : Char) : Nat := if c.toNat < 58 then c.toNat - 48 else c.toNat - 87

def hexNumber (cs : List Char) : Nat := cs.foldl (fun n c => 16 * n + hexValue c) 0

/-- The rune that a code of two digits stands for. -/
def runeOfCode (n : Nat) : Rune := if n < 0x80 then .ofChar (Char.ofNat n) else .stray (UInt8.ofNat n)

/-- The character that a letter behind a backslash stands for; all others stand for themselves. -/
def letterMeaning (letter : Char) : Char :=
  match letter with
  | 'a' => Char.ofNat 7
  | 'b' => Char.ofNat 8
  | 't' => Char.ofNat 9
  | 'n' => Char.ofNat 10
  | 'v' => Char.ofNat 11
  | 'f' => Char.ofNat 12
  | 'r' => Char.ofNat 13
  | _ => letter

/-- The rune that `mark` begins behind a backslash, and how many of the characters behind it belong
to it. -/
def readEscape (mark : Char) (rest : List Char) : Rune × Nat :=
  if mark = 'x' then (runeOfCode (hexNumber (rest.take 2)), 2)
  else if mark = 'u' then (.ofChar (Char.ofNat (hexNumber (rest.take 4))), 4)
  else if mark = 'U' then (.ofChar (Char.ofNat (hexNumber (rest.take 8))), 8)
  else (.ofChar (letterMeaning mark), 0)

/-- The rune that `c` begins, and how many of the characters behind it belong to it. -/
def readQuoted (c : Char) (rest : List Char) : Rune × Nat :=
  match rest with
  | [] => (.ofChar c, 0)
  | mark :: more =>
      if c = '\\' then ((readEscape mark more).1, (readEscape mark more).2 + 1) else (.ofChar c, 0)

/-- The runes up to the closing quote, after `skip` characters. -/
def runesWithin : Nat → List Char → List Rune
  | _, [] => []
  | skip + 1, _ :: rest => runesWithin skip rest
  | 0, c :: rest =>
      if c = '"' then [] else (readQuoted c rest).1 :: runesWithin (readQuoted c rest).2 rest

/-- The text that a quoted text stands for. -/
def dequote (t : Text) : Text := ofRunes (runesWithin 1 t.chars)

/-! ## Digits -/

theorem hexValue_hexDigit (n : Nat) : hexValue (hexDigit n) = n % 16 := by
  have table : ∀ m < 16, hexValue (Nat.digitChar m) = m := by decide
  exact table (n % 16) (Nat.mod_lt n (by decide))

theorem length_hexDigits (width n : Nat) : (hexDigits width n).length = width := by
  induction width generalizing n with
  | zero => rfl
  | succ width ih => simp [hexDigits, ih]

/-- Digits that are enough for a number spell it. -/
theorem hexNumber_hexDigits {width n : Nat} (small : n < Nat.pow 16 width) :
    hexNumber (hexDigits width n) = n := by
  induction width generalizing n with
  | zero =>
      have none : n = 0 := Nat.lt_one_iff.mp small
      rw [none]
      rfl
  | succ width ih =>
      have small : n < Nat.pow 16 width * 16 := small
      have front := ih (n := n / 16) (by omega)
      rw [hexNumber] at front
      rw [hexDigits, hexNumber, List.foldl_append, front, List.foldl_cons, List.foldl_nil,
        hexValue_hexDigit]
      omega

theorem take_hexDigits (width n : Nat) (rest : List Char) :
    (hexDigits width n ++ rest).take width = hexDigits width n :=
  List.take_left' (length_hexDigits width n)

/-! ## One rune -/

/-- What is written does not begin with a quote, and is read as the rune, whatever follows. -/
def ReadsBack (r : Rune) (written : List Char) : Prop :=
  ∃ c more, written = c :: more ∧ c ≠ '"' ∧ ∀ rest, readQuoted c (more ++ rest) = (r, more.length)

namespace ReadsBack

/-- A character that stands for itself. -/
theorem plain {c : Char} (quote : c ≠ '"') (backslash : c ≠ '\\') : ReadsBack (.ofChar c) [c] := by
  refine ⟨c, [], rfl, quote, fun rest => ?_⟩
  cases rest with
  | nil => rfl
  | cons next more => simp [readQuoted, backslash]

/-- What stands behind a backslash is read by its first character. -/
theorem escape {r : Rune} {mark : Char} {digits : List Char}
    (reads : ∀ rest, readEscape mark (digits ++ rest) = (r, digits.length)) :
    ReadsBack r ('\\' :: mark :: digits) := by
  refine ⟨'\\', mark :: digits, rfl, by decide, fun rest => ?_⟩
  rw [List.cons_append, readQuoted, if_pos rfl, reads rest]
  rfl

/-- A letter behind a backslash, or a character that is written behind one. -/
theorem letter {mark : Char} (code : mark ≠ 'x' ∧ mark ≠ 'u' ∧ mark ≠ 'U') :
    ReadsBack (.ofChar (letterMeaning mark)) ['\\', mark] := by
  apply escape
  intro rest
  simp [readEscape, code]

/-- A code of two digits. -/
theorem code {n : Nat} (small : n < 256) : ReadsBack (runeOfCode n) ('\\' :: 'x' :: hexDigits 2 n) := by
  apply escape
  intro rest
  rw [readEscape, if_pos rfl, take_hexDigits, hexNumber_hexDigits small, length_hexDigits]

/-- A character by its number, in four digits. -/
theorem short {c : Char} (small : c.toNat < 0x10000) :
    ReadsBack (.ofChar c) ('\\' :: 'u' :: hexDigits 4 c.toNat) := by
  apply escape
  intro rest
  rw [readEscape, if_neg (by decide), if_pos rfl, take_hexDigits, hexNumber_hexDigits small,
    length_hexDigits, Char.ofNat_toNat]

/-- A character by its number, in eight digits. -/
theorem long (c : Char) : ReadsBack (.ofChar c) ('\\' :: 'U' :: hexDigits 8 c.toNat) := by
  have small : c.toNat < Nat.pow 16 8 := Nat.lt_trans (Rune.toNat_lt c) (by decide)
  apply escape
  intro rest
  rw [readEscape, if_neg (by decide), if_neg (by decide), if_pos rfl, take_hexDigits,
    hexNumber_hexDigits small, length_hexDigits, Char.ofNat_toNat]

end ReadsBack

/-- The letters stand for the characters that they are written for, and no code begins with one. -/
theorem letterMeaning_escapeLetter? {c letter : Char} (found : escapeLetter? c = some letter) :
    letterMeaning letter = c ∧ letter ≠ 'x' ∧ letter ≠ 'u' ∧ letter ≠ 'U' := by
  unfold escapeLetter? at found
  split at found
  case h_8 => cases found
  -- Seven numbers have a letter, and the number is the character.
  all_goals
    next number =>
      cases found
      rw [← Char.ofNat_toNat c, number]
      decide

/-- A character is read back from what is written for it. -/
theorem quoteChar_readsBack (c : Char) : ReadsBack (.ofChar c) (quoteChar c) := by
  unfold quoteChar
  split
  · next marked =>
      rcases marked with rfl | rfl
      · exact .letter (by decide)
      · exact .letter (by decide)
  · next unmarked =>
      rw [not_or] at unmarked
      split
      · exact .plain unmarked.1 unmarked.2
      · split
        · next letter found =>
            obtain ⟨meaning, code⟩ := letterMeaning_escapeLetter? found
            rw [← meaning]
            exact .letter code
        · split
          · next low =>
              have ascii : c.toNat < 0x80 := by omega
              have coded := ReadsBack.code (n := c.toNat) (by omega)
              rwa [runeOfCode, if_pos ascii, Char.ofNat_toNat] at coded
          · split
            · next small => exact .short small
            · exact .long c

/-- A rune of a text is read back from what is written for it. -/
theorem quoteRune_readsBack {t : Text} {r : Rune} (member : r ∈ t.runes) : ReadsBack r (quoteRune r) := by
  rcases rune_cases member with ⟨c, rfl⟩ | ⟨b, wide, rfl⟩
  · rw [quoteRune, Rune.ofChar_not_stray]
    exact quoteChar_readsBack c
  · have coded := ReadsBack.code (n := b.toNat) b.toNat_lt
    rw [runeOfCode, if_neg (Nat.not_lt.mpr wide), UInt8.ofNat_toNat] at coded
    exact coded

/-! ## All runes -/

theorem runesWithin_skip (written rest : List Char) :
    runesWithin written.length (written ++ rest) = runesWithin 0 rest := by
  induction written with
  | nil => rfl
  | cons c more ih => exact ih

/-- The runes are read one after the other, up to the closing quote. -/
theorem runesWithin_flatMap {rs : List Rune} (each : ∀ r ∈ rs, ReadsBack r (quoteRune r))
    (rest : List Char) : runesWithin 0 (rs.flatMap quoteRune ++ '"' :: rest) = rs := by
  induction rs with
  | nil => rfl
  | cons r others ih =>
      obtain ⟨first, later⟩ := List.forall_mem_cons.mp each
      obtain ⟨c, more, written, quote, reads⟩ := first
      rw [List.flatMap_cons, written, List.append_assoc, List.cons_append, runesWithin, if_neg quote,
        reads, runesWithin_skip, ih later]

/-- **What is quoted can be read back**, whatever bytes the text holds. -/
theorem dequote_quote (t : Text) : dequote (quote t) = t := by
  have each : ∀ r ∈ t.runes, ReadsBack r (quoteRune r) := fun r member => quoteRune_readsBack member
  have inner := runesWithin_flatMap each []
  rw [dequote, quote, chars_ofChars, List.cons_append, runesWithin, inner, bytes_runes]

/-- A byte that belongs to no character, the character of the same number, the replacement character, and
the code of the byte as text. -/
example : [[0xFF], utf8 "ÿ", [0xEF, 0xBF, 0xBD], utf8 "\\xff"].map quote =
    [utf8 "\"\\xff\"", utf8 "\"ÿ\"", utf8 "\"\uFFFD\"", utf8 "\"\\\\xff\""] := by
  decide +kernel

end LoopScript.Text
