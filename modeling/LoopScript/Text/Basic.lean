/-
# LoopScript.Text.Basic — text as a list of bytes

Scripts, names, string values and messages are byte strings: a source need not be valid UTF-8, and
joining two strings joins their bytes. `Text` is therefore the list of the bytes, and `utf8` brings
a character string into it. The operations here are those on lines and on decimal numerals; how
bytes group into characters is the subject of `LoopScript.Text.Rune`.

Joining the lines of a text gives the text back (`joinLines_splitLines`), so it may be edited line by
line without loss.
-/

namespace LoopScript

set_option autoImplicit false

/-- A byte string. -/
abbrev Text := List UInt8

def utf8 (s : String) : Text := s.toList.flatMap String.utf8EncodeChar

namespace Text

def newline : UInt8 := 10

def space : UInt8 := 32

/-- Cut at every `sep`; the pieces hold no `sep`, and there is always at least one. -/
def splitAt (sep : UInt8) : Text → List Text
  | [] => [[]]
  | b :: rest =>
      if b = sep then [] :: splitAt sep rest
      else match splitAt sep rest with
        | piece :: more => (b :: piece) :: more
        | [] => [[b]]

/-- The lines of a text, without their line feeds. A text that ends in a line feed has an empty
last line. -/
def splitLines (t : Text) : List Text := splitAt newline t

/-- Put `sep` between the pieces. -/
def joinWith (sep : Text) : List Text → Text
  | [] => []
  | [piece] => piece
  | piece :: more => piece ++ sep ++ joinWith sep more

def joinLines (lines : List Text) : Text := joinWith [newline] lines

/-- Drop every byte at the end that satisfies `p`. -/
def dropEndWhile (p : UInt8 → Bool) (t : Text) : Text :=
  (t.reverse.dropWhile p).reverse

def startsWith (t start : Text) : Bool := start.isPrefixOf t

/-- The decimal numeral of a natural number, without leading zeros. -/
def ofNat (n : Nat) : Text := (Nat.toDigits 10 n).map fun c => c.toNat.toUInt8

/-- The decimal numeral of an integer; a minus sign stands before negative ones only. -/
def ofInt (i : Int) : Text :=
  if i < 0 then 45 :: ofNat i.natAbs else ofNat i.natAbs

def isDigit (b : UInt8) : Bool := 48 ≤ b && b ≤ 57

/-- The number a string of decimal digits stands for, read from the left. -/
def decimalValue (digits : Text) : Nat :=
  digits.foldl (fun n b => 10 * n + (b.toNat - 48)) 0

/-- The same text with the capital letters `A` to `Z` made small. -/
def toLower (t : Text) : Text :=
  t.map fun b => if 65 ≤ b && b ≤ 90 then b + 32 else b

/-! ## Lines -/

theorem splitAt_ne_nil (b : UInt8) : ∀ t : Text, splitAt b t ≠ []
  | [] => by simp [splitAt]
  | c :: rest => by
      unfold splitAt
      split
      · simp
      · split <;> simp

theorem joinWith_cons_cons (sep piece next : Text) (more : List Text) :
    joinWith sep (piece :: next :: more) = piece ++ sep ++ joinWith sep (next :: more) := rfl

theorem joinWith_cons_of_ne_nil (sep piece : Text) {more : List Text} (h : more ≠ []) :
    joinWith sep (piece :: more) = piece ++ sep ++ joinWith sep more := by
  cases more with
  | nil => exact absurd rfl h
  | cons next rest => rfl

theorem joinWith_cons_byte (sep piece : Text) (b : UInt8) (more : List Text) :
    joinWith sep ((b :: piece) :: more) = b :: joinWith sep (piece :: more) := by
  cases more <;> simp [joinWith]

theorem joinWith_splitAt (b : UInt8) : ∀ t : Text, joinWith [b] (splitAt b t) = t
  | [] => rfl
  | c :: rest => by
      have ih := joinWith_splitAt b rest
      have ne := splitAt_ne_nil b rest
      unfold splitAt
      split
      · next h => rw [joinWith_cons_of_ne_nil _ _ ne, ih, h]; rfl
      · split
        · next piece more eq => rw [joinWith_cons_byte, ← eq, ih]
        · next eq => exact absurd eq ne

/-- Cutting a text into lines loses nothing. -/
theorem joinLines_splitLines (t : Text) : joinLines (splitLines t) = t :=
  joinWith_splitAt newline t

end Text

end LoopScript
