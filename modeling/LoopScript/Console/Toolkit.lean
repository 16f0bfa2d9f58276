/-
# LoopScript.Console.Toolkit — what a session leaves to its toolkit

The input line of a session is a text field, the keys are listed in a help footer, and a panel stands in a
frame. How a field edits its line and how all this is laid out is not for the session to decide: it is
given by a `Toolkit`, and a session says only which texts and widths it hands over. `Toolkit.standard` is
the toolkit that the program runs with.

The help leaves out what does not fit the width it is given, and shows an ellipsis if there is room for one.
A width of zero is no limit.
-/
import LoopScript.Console.Field

namespace LoopScript.Console

set_option autoImplicit false

structure KeyHelp where
  key : Text
  description : Text

/-- A toolkit: what a text field holds after an edit and how it looks, how the help and a frame look, and
how high a text is. -/
structure Toolkit where
  /-- What the field holds when a text is put into it. -/
  clean : Text → Text
  /-- What it holds when a text is typed at the end of a line. -/
  typed : Text → Text → Text
  /-- What it holds when the last character of a line is deleted. -/
  erased : Text → Text
  /-- The field with its prompt and a line; the placeholder is for an empty one. -/
  field (prompt placeholder : Text) (width : Int) (line : Text) : Text
  shortHelp (width : Int) (keys : List KeyHelp) : Text
  fullHelp (width : Int) (columns : List (List KeyHelp)) : Text
  framed : Text → Text
  height : Text → Nat

namespace Toolkit

/-! ## Laying out -/

/-- The columns that a line takes, at one for each character. -/
def width (t : Text) : Nat := t.chars.length

def blanks (n : Nat) : Text := List.replicate n Text.space

/-- The lines, and empty ones below them up to a height, all made as wide as the widest. -/
def block (height : Nat) (lines : List Text) : List Text :=
  let widest := (lines.map width).foldl max 0
  (lines ++ List.replicate (height - lines.length) []).map fun line =>
    line ++ blanks (widest - width line)

def beside (left right : List Text) : List Text :=
  let height := max left.length right.length
  List.zipWith (· ++ ·) (block height left) (block height right)

def ellipsis : Text := utf8 " …"

/-- An item behind others that take `used` columns is left out: it does not fit, but an ellipsis does. -/
def leftOut (limit : Int) (used item : Nat) : Bool :=
  0 < limit && limit < used + item && used + width ellipsis < limit

/-- The keys on one line, as far as they fit. -/
def keysInLine (limit : Int) (used : Nat) : List KeyHelp → Text
  | [] => []
  | k :: rest =>
      let item := (if used = 0 then [] else utf8 " • ") ++ k.key ++ blanks 1 ++ k.description
      if leftOut limit used (width item) then ellipsis
      else item ++ keysInLine limit (used + width item) rest

/-- Columns of keys to the right of others, as far as they fit. -/
def keysInColumns (limit : Int) (used : Nat) (left : List Text) : List (List KeyHelp) → List Text
  | [] => left
  | keys :: rest =>
      let gap := if used = 0 then [] else [blanks 4]
      let named := beside (keys.map KeyHelp.key) [blanks 1]
      let column := beside (beside gap named) (keys.map KeyHelp.description)
      let taken := (column.map width).foldl max 0
      if leftOut limit used taken then beside left [ellipsis]
      else keysInColumns limit (used + taken) (beside left column) rest

/-! ## The standard toolkit -/

/-- The toolkit of the program. Its field shows the whole line, however wide it is. -/
def standard : Toolkit where
  clean := Console.clean
  typed := Console.typed
  erased := Console.erased
  field prompt placeholder _ line := prompt ++ if line = [] then placeholder else line
  shortHelp limit keys := keysInLine limit 0 keys
  fullHelp limit columns := Text.joinLines (keysInColumns limit 0 [] columns)
  framed t := Text.joinLines ((Text.splitLines t).map fun line => utf8 "│ " ++ line)
  height t := (Text.splitLines t).length

end Toolkit

end LoopScript.Console
