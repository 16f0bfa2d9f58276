/-
# LoopScript.Frame — a source line with a caret under one column

Errors show the line they are about. A `Frame` holds that line, made fit for printing (no carriage
returns at its end, tabs as single spaces), and the column of the caret. `Frame.at?` finds the line
and brings the column into the line or just behind its end; there is no frame for an empty source or
for a line the source does not have. `render` writes the frame in three lines.
-/
import LoopScript.Position

namespace LoopScript

set_option autoImplicit false

/-- One source line and the column to point at. -/
structure Frame where
  line : Nat
  column : Nat
  shown : Text
deriving DecidableEq, Repr

namespace Frame

def present (line : Text) : Text :=
  (Text.dropEndWhile (· == 13) line).map fun b => if b = 9 then Text.space else b

/-- A column brought between one and the column just behind `width` characters. -/
def clampColumn (column : Int) (width : Nat) : Nat :=
  if column ≤ 0 then 1 else min column.toNat (width + 1)

/-- The frame of a position; none if the source has no such line. -/
def at? (source : Text) (pos : Position) : Option Frame :=
  if source = [] ∨ pos.line ≤ 0 then none
  else match (Text.splitLines source)[(pos.line - 1).toNat]? with
    | none => none
    | some line =>
        let shown := present line
        some ⟨pos.line.toNat, clampColumn pos.column shown.runes.length, shown⟩

/-- The frame in three lines: where it is, the line behind its number, and the caret. -/
def render (f : Frame) : Text :=
  let label := Text.ofNat f.line
  utf8 "  --> line " ++ label ++ utf8 ", column " ++ Text.ofNat f.column ++ utf8 "\n " ++
    label ++ utf8 " | " ++ f.shown ++ utf8 "\n " ++
    List.replicate label.length Text.space ++ utf8 " | " ++
    List.replicate (f.column - 1) Text.space ++ utf8 "^"

end Frame

/-- The frame of a position as text, empty if there is none. -/
def codeFrame (source : Text) (pos : Position) : Text :=
  match Frame.at? source pos with
  | some f => f.render
  | none => []

/-- A message followed by the frame of its position on lines of its own, if there is one. -/
def withFrame (message frame : Text) : Text :=
  if frame = [] then message else message ++ [Text.newline] ++ frame

end LoopScript
