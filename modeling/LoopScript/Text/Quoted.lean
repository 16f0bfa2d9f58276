/-
# LoopScript.Text.Quoted — text between double quotes

`quote` writes a text on one line between double quotes. A quote and a backslash stand behind a
backslash; printable characters stand for themselves; seven control characters have a letter of their
own; every other character is written by its code, in two, four or eight hexadecimal digits; and a
byte that belongs to no character is written as that byte.
-/
import LoopScript.Text.Printable
import LoopScript.Text.Rune

namespace LoopScript.Text

set_option autoImplicit false

/-- A hexadecimal digit, in small letters. -/
def hexDigit (n : Nat) : Char := Nat.digitChar (n % 16)

/-- The last `width` hexadecimal digits of `n`. -/
def hexDigits : Nat → Nat → List Char
  | 0, _ => []
  | width + 1, n => hexDigits width (n / 16) ++ [hexDigit n]

/-- The letter that stands for a control character behind a backslash. -/
def escapeLetter? (c : Char) : Option Char :=
  match c.toNat with
  | 7 => some 'a'
  | 8 => some 'b'
  | 9 => some 't'
  | 10 => some 'n'
  | 11 => some 'v'
  | 12 => some 'f'
  | 13 => some 'r'
  | _ => none

/-- One character between double quotes. -/
def quoteChar (c : Char) : List Char :=
  if c = '"' ∨ c = '\\' then ['\\', c]
  else if isPrintable c then [c]
  else match escapeLetter? c with
    | some letter => ['\\', letter]
    | none =>
        if c.toNat < 32 ∨ c.toNat = 127 then '\\' :: 'x' :: hexDigits 2 c.toNat
        else if c.toNat < 0x10000 then '\\' :: 'u' :: hexDigits 4 c.toNat
        else '\\' :: 'U' :: hexDigits 8 c.toNat

/-- One rune between double quotes; a stray byte is written as a byte. -/
def quoteRune (r : Rune) : List Char :=
  if r.isStray then '\\' :: 'x' :: hexDigits 2 ((r.bytes.head?.getD 0).toNat)
  else quoteChar r.char

/-- The text between double quotes, on one line. -/
def quote (t : Text) : Text :=
  ofChars ('"' :: t.runes.flatMap quoteRune ++ ['"'])

end LoopScript.Text
