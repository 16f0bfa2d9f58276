/-
# LoopScript.Console.Field — a text field of one line

Whatever is put into the field is cleaned first: tabs, line feeds and carriage returns become spaces, other
control characters and U+FFFD are dropped, and no more than a thousand characters are kept.
-/
import LoopScript.Text.Printable
import LoopScript.Text.Rune

namespace LoopScript.Console

set_option autoImplicit false

def fieldLimit : Nat := 1000

/-- A character as the field takes it. -/
def cleanChar (c : Char) : Option Char :=
  if c = '\t' ∨ c = '\n' ∨ c = '\r' then some ' '
  else if Text.isControl c ∨ c = Rune.replacement then none
  else some c

def cleanChars (t : Text) : List Char := t.chars.filterMap cleanChar

def clean (t : Text) : Text := Text.ofChars ((cleanChars t).take fieldLimit)

/-- The line after a text has been typed at its end. -/
def typed (line t : Text) : Text :=
  Text.ofChars ((line.chars ++ cleanChars t).take fieldLimit)

def erased (line : Text) : Text := Text.ofChars line.chars.dropLast

end LoopScript.Console
