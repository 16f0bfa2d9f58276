/-
# LoopScript.Yaml.Property — anchors, tags and directives

What may be said of a node before its content: `&name` gives it a name, under which `*name` stands for it
later, and `!` with a tag says what it is. A tag is written in full between `<` and `>`, or as a handle
and a suffix; a directive `%TAG` at the beginning of a document says what a handle stands for, and
`%YAML` gives the version.

Each function takes its form off the front and gives the cursor behind it, or `none` if it is not well
formed.
-/
import LoopScript.Yaml.Scalar
import LoopScript.Yaml.Token.Basic

namespace LoopScript.Yaml.Property

set_option autoImplicit false

/-- The characters of names: letters, digits, underscores and minus signs. -/
def isNameChar (c : Char) : Bool := c.isAlphanum || c == '_' || c == '-'

/-- Whether a name may end before these characters. -/
def endsName (cs : List Char) : Bool :=
  startsBlank cs || ['?', ':', ',', ']', '}', '%', '@', Char.ofNat 96].any fun x => cs.head? == some x

def name? (c : Cursor) : Option (Text × Cursor) :=
  let (name, after) := c.span isNameChar
  if name ≠ [] ∧ endsName after.rest then some (Text.ofChars name, after) else none

/-! ## Tags -/

/-- The characters of tags that stand for themselves. -/
def isTagChar (c : Char) : Bool :=
  isNameChar c || [';', '/', '?', ':', '@', '&', '=', '+', '$', ',', '.', '!', '~', '*', '\'', '(', ')',
    '[', ']'].contains c

/-- The byte that a percent sign and two hexadecimal digits stand for. -/
def escapedByte? : List Char → Option UInt8
  | '%' :: rest => (Scalar.hexNumber? 2 rest).map Nat.toUInt8
  | _ => none

/-- The number of bytes of a character that begins with this byte. -/
def leadWidth? (b : UInt8) : Option Nat :=
  if (0x80 ≤ b && b < 0xC0) || 0xF8 ≤ b then none else some (Rune.widthOf b)

/-- The bytes that continue a character, `count` of them, each escaped. -/
def escapedTail : (count : Nat) → Cursor → Option (Text × Cursor)
  | 0, c => some ([], c)
  | count + 1, c => do
      let b ← escapedByte? c.rest
      if 0x80 ≤ b && b < 0xC0 then
        let (more, after) ← escapedTail count (c.advance 3)
        some (b :: more, after)
      else none

/-- The characters of a tag, as bytes. A character outside of `isTagChar` is written by the escapes of
all its bytes. -/
def tagText : Nat → Cursor → Option (Text × Cursor)
  | 0, _ => none
  | budget + 1, c =>
      match c.rest with
      | [] => some ([], c)
      | x :: _ =>
          if x = '%' then do
            let b ← escapedByte? c.rest
            let width ← leadWidth? b
            let (tail, after) ← escapedTail (width - 1) (c.advance 3)
            let (more, after) ← tagText budget after
            some (b :: tail ++ more, after)
          else if isTagChar x then do
            let (more, after) ← tagText budget (c.advance 1)
            some (String.utf8EncodeChar x ++ more, after)
          else some ([], c)

/-- The characters of a tag; there must be some. -/
def tagText? (c : Cursor) : Option (Text × Cursor) := do
  let (text, after) ← tagText (c.rest.length + 1) c
  if text = [] then none else some (text, after)

/-- A handle: exclamation marks around a name, or before one. -/
def handle? (c : Cursor) : Option (Text × Cursor) :=
  if !c.isAt '!' then none
  else
    let (name, after) := (c.advance 1).span isNameChar
    let opened := utf8 "!" ++ Text.ofChars name
    if after.isAt '!' then some (opened ++ utf8 "!", after.advance 1) else some (opened, after)

/-- Whether a handle ends in an exclamation mark of its own. -/
def isClosed (handle : Text) : Bool := 1 < handle.length && handle.getLast? == some 33

/-- A tag: its handle and its suffix. The handle is empty for a tag in full and for a single exclamation
mark. -/
def tag? (c : Cursor) : Option ((Text × Text) × Cursor) := do
  let (tag, after) ←
    if (c.rest.drop 1).head? = some '<' then do
      let (text, after) ← tagText? (c.advance 2)
      if after.isAt '>' then some (([], text), after.advance 1) else none
    else do
      let (handle, after) ← handle? c
      if isClosed handle then
        let (text, after) ← tagText? after
        some ((handle, text), after)
      else
        let (more, after) ← tagText (after.rest.length + 1) after
        let suffix := handle.drop 1 ++ more
        some (if suffix = [] then ([], utf8 "!") else (utf8 "!", suffix), after)
  if startsBlank after.rest then some (tag, after) else none

/-! ## Directives -/

/-- A number of one or two digits. -/
def versionPart? (c : Cursor) : Option (Nat × Cursor) :=
  let (digits, after) := c.span Char.isDigit
  if digits ≠ [] ∧ digits.length ≤ 2 then
    some (Text.decimalValue (Text.ofChars digits), after)
  else none

def version? (c : Cursor) : Option (Token.Kind × Cursor) := do
  let (major, after) ← versionPart? (c.skipWhile isBlank)
  if !after.isAt '.' then none
  else
    let (minor, after) ← versionPart? (after.advance 1)
    some (.version major minor, after)

/-- The handle behind the word `TAG`, and what it stands for. -/
def tagHandle? (c : Cursor) : Option (Token.Kind × Cursor) := do
  let (handle, after) ← handle? (c.skipWhile isBlank)
  if !(isClosed handle ∨ handle = utf8 "!") ∨ !after.rest.head?.any isBlank then none
  else
    let (base, after) ← tagText? (after.skipWhile isBlank)
    if startsBlank after.rest then some (.tagHandle handle base, after) else none

/-- A directive at its percent sign, with its line. -/
def directive? (c : Cursor) : Option (Token.Kind × Cursor) := do
  let (word, after) := (c.advance 1).span isNameChar
  if !startsBlank after.rest then none
  else
    let (kind, after) ←
      if word = ['Y', 'A', 'M', 'L'] then version? after
      else if word = ['T', 'A', 'G'] then tagHandle? after
      else none
    let behind := after.skipWhile isBlank
    let behind := if behind.isAt '#' then behind.toLineEnd else behind
    if behind.atLineEnd then some (kind, behind.skipBreak) else none

end LoopScript.Yaml.Property
