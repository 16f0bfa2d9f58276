/-
# LoopScript.Yaml.Cursor — moving over the characters of a document

A `Cursor` is the part of a document that is still to be read and the place it begins at. Lines and
columns count from zero.

A line breaks at a line feed, a carriage return, both in this order, a next line character, or one of the
two separators. The separators stay as they are in the text of a scalar; the others read as a line feed.
-/
import LoopScript.Text.Rune

namespace LoopScript.Yaml

set_option autoImplicit false

def isBlank (c : Char) : Bool := c == ' ' || c == '\t'

def isSeparator (c : Char) : Bool := c.toNat == 0x2028 || c.toNat == 0x2029

def isBreak (c : Char) : Bool := c == '\n' || c == '\r' || c.toNat == 0x85 || isSeparator c

/-- Whether a blank, a line break or nothing stands at the front. -/
def startsBlank : List Char → Bool
  | [] => true
  | c :: _ => isBlank c || isBreak c

/-- A place in a document, and how many characters stand before it. -/
structure Mark where
  index : Nat
  line : Nat
  column : Nat
deriving DecidableEq, Repr

/-- What is still to be read, and where that begins; `breaks` counts the line breaks since the last
character that is no blank. -/
structure Cursor where
  rest : List Char
  mark : Mark
  breaks : Nat
deriving DecidableEq, Repr

namespace Cursor

def ofChars (cs : List Char) : Cursor := ⟨cs, ⟨0, 0, 0⟩, 0⟩

def column (c : Cursor) : Nat := c.mark.column

def line (c : Cursor) : Nat := c.mark.line

def isAt (c : Cursor) (x : Char) : Bool := c.rest.head? == some x

def atLineEnd (c : Cursor) : Bool := c.rest.head?.all isBreak

/-- Move over some characters, none of which breaks a line. -/
def advance (c : Cursor) (n : Nat) : Cursor :=
  let passed := c.rest.take n
  { rest := c.rest.drop n
    mark := { c.mark with index := c.mark.index + passed.length, column := c.column + passed.length }
    breaks := if passed.all isBlank then c.breaks else 0 }

/-- The characters that satisfy `p`, and the cursor behind them. -/
def span (c : Cursor) (p : Char → Bool) : List Char × Cursor :=
  let taken := c.rest.takeWhile p
  (taken, c.advance taken.length)

def skipWhile (c : Cursor) (p : Char → Bool) : Cursor := (c.span p).2

def toLineEnd (c : Cursor) : Cursor := c.skipWhile fun x => !isBreak x

/-- Move over a line break: the text it reads as, and the cursor on the next line. -/
def nextLine (c : Cursor) : List Char × Cursor :=
  let moved (n : Nat) : Cursor :=
    ⟨c.rest.drop n, ⟨c.mark.index + n, c.line + 1, 0⟩, c.breaks + 1⟩
  match c.rest with
  | '\r' :: '\n' :: _ => (['\n'], moved 2)
  | x :: _ => if isSeparator x then ([x], moved 1) else if isBreak x then (['\n'], moved 1) else ([], c)
  | [] => ([], c)

def skipBreak (c : Cursor) : Cursor := c.nextLine.2

/-- Whether a mark between documents stands here: three times `x` at the beginning of a line. -/
def atMarker (c : Cursor) (x : Char) : Bool :=
  c.column == 0 && c.rest.take 3 == [x, x, x] && startsBlank (c.rest.drop 3)

/-- Whether a document begins or ends here. -/
def atAnyMarker (c : Cursor) : Bool := c.atMarker '-' || c.atMarker '.'

end Cursor

end LoopScript.Yaml
