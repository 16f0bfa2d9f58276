/-
# LoopScript.Position — places in a source

A `Position` is a line and a column, both counted from one; hosts that build trees by hand may give
any integers. Reading a character moves the position (`after`): a line feed opens the next line at
column zero, so that the first character of a line has column one. `start` is the position before
anything is read.

`Glyph` is a rune with the position it stands at, and `place` gives every rune of a text its
position.
-/
import LoopScript.Text.Rune

namespace LoopScript

set_option autoImplicit false

structure Position where
  line : Int
  column : Int
deriving DecidableEq, Repr, Inhabited

namespace Position

def start : Position := ⟨1, 0⟩

/-- The position of an empty program, which stands nowhere. -/
def nowhere : Position := ⟨0, 0⟩

/-- The position of a character `c` that follows the position `p`. -/
def after (p : Position) (c : Char) : Position :=
  if c = '\n' then ⟨p.line + 1, 0⟩ else ⟨p.line, p.column + 1⟩

def before (p q : Position) : Bool :=
  if p.line = q.line then p.column < q.column else p.line < q.line

/-- `line:column`. -/
def render (p : Position) : Text := Text.ofInt p.line ++ [58] ++ Text.ofInt p.column

end Position

/-- A rune and where it stands. -/
structure Glyph where
  char : Char
  bytes : Text
  pos : Position
deriving DecidableEq, Repr

namespace Glyph

/-- The runes with their positions, the first of them following `p`. -/
def place : Position → List Rune → List Glyph
  | _, [] => []
  | p, r :: rest => ⟨r.char, r.bytes, p.after r.char⟩ :: place (p.after r.char) rest

/-- The glyphs of a source. -/
def ofText (source : Text) : List Glyph := place .start source.runes

def bytesOf (gs : List Glyph) : Text := gs.flatMap Glyph.bytes

theorem bytesOf_place (rs : List Rune) : ∀ p, bytesOf (place p rs) = Text.ofRunes rs := by
  induction rs with
  | nil => intro p; rfl
  | cons r rest ih =>
      intro p
      have := ih (p.after r.char)
      simp only [bytesOf, Text.ofRunes, place, List.flatMap_cons] at this ⊢
      rw [this]

/-- The glyphs of a source hold all of its bytes. -/
theorem bytesOf_ofText (source : Text) : bytesOf (ofText source) = source := by
  rw [ofText, bytesOf_place, Text.bytes_runes]

end Glyph

/-- The position of the last character of a source, `start` if there is none. -/
def endOf (source : Text) : Position :=
  source.runes.foldl (fun p r => p.after r.char) .start

end LoopScript
