/-
# LoopScript.Yaml.Token.Lexer — reading tokens one after the other

A `Lexer` holds the tokens that have been read and not yet taken, and what the next ones depend on: the
columns of the blocks that are open, the brackets and braces that are, each of which opens a `Level`,
whether a key may begin here, and on each level the token that may turn out to be one (`Candidate`).

A token is given out when two more behind it have been read, and not before it is known whether it is a
key. So a fault is noticed before the tokens in front of it have all been taken, and one far behind the
last token that is taken is not noticed at all.
-/
import LoopScript.Yaml.Property
import LoopScript.Yaml.Source

namespace LoopScript.Yaml

set_option autoImplicit false

/-- A token that is a key if a colon follows it on its line: its number, where it stands, whether nothing
but a key may stand there, and whether it stays in the queue until it is known to be a key or not. -/
structure Candidate where
  number : Nat
  mark : Mark
  required : Bool
  awaited : Bool
deriving DecidableEq, Repr

/-- Whether a candidate can still be a key when the reading has come to `mark`: on the same line, and not
too far behind. -/
def Candidate.isOpen (k : Candidate) (mark : Mark) : Bool :=
  k.mark.line == mark.line && mark.index ≤ k.mark.index + 1024

/-- What stands between a bracket or a brace and its counterpart, or outside of all of them: the
candidate, and the number of the token that was the last candidate, or else of the one that opened the
level. -/
structure Level where
  candidate : Option Candidate
  last : Nat
deriving DecidableEq, Repr

/-- The level around one that is closed. Its candidate is awaited no longer if it is the opening bracket
of a level in which there was no other. -/
def Level.around (outer inner : Level) : Level :=
  { outer with
    candidate := outer.candidate.map fun k =>
      if k.number = inner.last then { k with awaited := false } else k }

structure Lexer where
  /-- The number of characters of the document. -/
  size : Nat
  /-- What is still to be read. -/
  cursor : Cursor
  /-- Whether the document ends where the cursor does. -/
  sound : Bool
  /-- Whether the first character of each line is passed over, as it is behind two byte order marks until
  the last few characters. -/
  shifted : Bool
  /-- The column of the innermost block, -1 if there is none. -/
  indent : Int
  /-- The columns of the blocks around it. -/
  outer : List Int
  /-- The innermost level. -/
  level : Level
  /-- The levels around it. -/
  levels : List Level
  /-- Whether a key may begin here. -/
  keyAllowed : Bool
  /-- The tokens that have been read and not taken. -/
  queue : List Token
  /-- The number of tokens that have been taken. -/
  taken : Nat
deriving Repr

namespace Lexer

def ofSource (s : Source) : Lexer where
  size := s.chars.length
  cursor := .ofChars s.chars
  sound := s.sound
  shifted := s.chars.head?.any fun c => c.toNat == 0xFEFF
  indent := -1
  outer := []
  level := ⟨none, 0⟩
  levels := []
  keyAllowed := true
  queue := []
  taken := 0

/-- One more than the number of characters that are still to be read. -/
def budget (lx : Lexer) : Nat := lx.size - lx.cursor.mark.index + 1

def inFlow (lx : Lexer) : Bool := !lx.levels.isEmpty

/-- How deep blocks, and brackets and braces, may be nested. -/
def maxDepth : Nat := 10000

/-- The number of characters that are looked at to tell what comes next. -/
def window : Nat := 4

def nearEnd (lx : Lexer) : Bool := (lx.cursor.rest.take window).length < window

/-- Lines are whole again near the end of the document. -/
def straighten (lx : Lexer) : Lexer := { lx with shifted := lx.shifted && !lx.nearEnd }

/-- The column behind which further lines of a plain scalar begin. -/
def minColumn (lx : Lexer) : Nat := (lx.indent + 1).toNat

/-- The column of the innermost block, if there is one. -/
def blockColumn? (lx : Lexer) : Option Nat := if lx.indent < 0 then none else some lx.indent.toNat

/-! ## The queue -/

def push (lx : Lexer) (kind : Token.Kind) (line : Nat) : Lexer :=
  { lx with queue := lx.queue ++ [⟨kind, line⟩] }

/-- Put a token into the queue before the one with this number, or at the end if that one has been
taken. -/
def insertAt (lx : Lexer) (number : Nat) (kind : Token.Kind) (line : Nat) : Lexer :=
  let place := if number < lx.taken then lx.queue.length else number - lx.taken
  { lx with queue := lx.queue.take place ++ ⟨kind, line⟩ :: lx.queue.drop place }

def nextNumber (lx : Lexer) : Nat := lx.taken + lx.queue.length

/-! ## Blocks -/

/-- How many blocks end at a column, and the column of the innermost one that does not, with those around
it. -/
def endedAt (column : Int) : Int → List Int → Nat × Int × List Int
  | indent, [] => (0, indent, [])
  | indent, next :: outer =>
      if column < indent then
        let (count, rest) := endedAt column next outer
        (count + 1, rest)
      else (0, indent, next :: outer)

/-- End the blocks that are further in than `column`. -/
def endBlocks (lx : Lexer) (column : Int) (line : Nat) : Lexer :=
  if lx.inFlow then lx
  else
    let (count, indent, outer) := endedAt column lx.indent lx.outer
    { lx with
      indent, outer
      queue := lx.queue ++ List.replicate count ⟨.endBlock, line⟩ }

/-- Begin a block at a column, if the innermost one is not as far in; its token goes before the token with
this number. -/
def beginBlock (lx : Lexer) (column number : Nat) (kind : Token.Kind) (line : Nat) : Option Lexer :=
  if lx.inFlow ∨ (column : Int) ≤ lx.indent then some lx
  else if maxDepth ≤ lx.outer.length then none
  else
    some ({ lx with indent := column, outer := lx.indent :: lx.outer }.insertAt number kind line)

/-! ## Candidates for keys -/

def clearCandidate (lx : Lexer) : Lexer := { lx with level := { lx.level with candidate := none } }

/-- Give up the candidate of the innermost level, which must not be required. -/
def dropCandidate (lx : Lexer) : Option Lexer :=
  if lx.level.candidate.any Candidate.required then none else some lx.clearCandidate

/-- Take the next token as a candidate, if a key may begin here. -/
def noteCandidate (lx : Lexer) : Option Lexer :=
  if !lx.keyAllowed then some lx
  else do
    let required := !lx.inFlow && lx.indent == (lx.cursor.column : Int)
    let k : Candidate := ⟨lx.nextNumber, lx.cursor.mark, required, true⟩
    let lx ← lx.dropCandidate
    some { lx with level := ⟨some k, k.number⟩ }

/-! ## Blanks and comments -/

/-- How far ahead a comment is looked for. -/
def reach : Nat := 512

/-- The blanks and line breaks that may stand between two comments. -/
def isPlainGap (c : Char) : Bool := isBlank c || c == '\n' || c == '\r'

def skipGap : Nat → Cursor → Cursor
  | 0, c => c
  | budget + 1, c =>
      if c.rest.head?.any isBlank then skipGap budget (c.advance 1)
      else if c.rest.head?.any isPlainGap then skipGap budget c.skipBreak
      else c

/-- Move over a comment, and over those that follow it with nothing but blanks and line breaks between
them, to the end of the last one's line. -/
def skipComments : Nat → Cursor → Cursor
  | 0, c => c
  | budget + 1, c =>
      let behind := c.toLineEnd
      let gap := behind.rest.takeWhile isPlainGap
      if !behind.rest.head?.any isPlainGap ∨ reach ≤ gap.length then behind
      else if (behind.rest.drop gap.length).head? = some '#' then
        skipComments budget (skipGap (gap.length + 1) behind)
      else behind

/-- Move over a comment that stands on the line of the last token. -/
def skipLineComment (c : Cursor) : Cursor :=
  let blanks := c.rest.takeWhile isBlank
  if c.breaks = 0 ∧ blanks.length < reach ∧ (c.rest.drop blanks.length).head? = some '#' then
    c.toLineEnd
  else c

/-- Move to the next content: over blanks, line breaks and comments. In a block tabs do not count as
blanks where a key may begin, as it may on each new line. -/
def toContent : Nat → Lexer → Lexer
  | 0, lx => lx
  | budget + 1, lx =>
      let c := if lx.shifted && lx.cursor.column == 0 then lx.cursor.advance 1 else lx.cursor
      let c := c.skipWhile fun x => x == ' ' || (x == '\t' && (lx.inFlow || !lx.keyAllowed))
      let c := if c.isAt '#' then skipComments (budget + 1) c else c
      if c.rest.head?.any isBreak then
        toContent budget { lx with cursor := c.skipBreak, keyAllowed := lx.keyAllowed || !lx.inFlow }
      else { lx with cursor := c }

/-! ## Single tokens -/

/-- Put a token of one character at the end of the queue. -/
def pushSign (lx : Lexer) (kind : Token.Kind) : Lexer :=
  { lx.push kind lx.cursor.line with cursor := lx.cursor.advance 1 }

/-- The end of the document, which is at the beginning of a line. -/
def sourceEnd (lx : Lexer) : Option Lexer := do
  let mark := lx.cursor.mark
  let line := if mark.column = 0 then mark.line else mark.line + 1
  let lx := { lx with cursor := { lx.cursor with mark := { mark with line, column := 0 } } }
  let lx ← (lx.endBlocks (-1) line).dropCandidate
  some ({ lx with keyAllowed := false }.push .sourceEnd line)

/-- A directive, or a mark between documents: what is read there and the cursor behind it. -/
def betweenDocuments (lx : Lexer) (kind : Token.Kind) (after : Cursor) : Option Lexer := do
  let line := lx.cursor.line
  let lx ← (lx.endBlocks (-1) line).dropCandidate
  some ({ lx with keyAllowed := false, cursor := after }.push kind line)

def opening (lx : Lexer) (kind : Token.Kind) : Option Lexer := do
  let lx ← lx.noteCandidate
  if maxDepth ≤ lx.levels.length then none
  else
    let level : Level := ⟨none, lx.nextNumber⟩
    some ({ lx with level, levels := lx.level :: lx.levels, keyAllowed := true }.pushSign kind)

/-- Close the innermost level, if it is not outside of all brackets and braces. -/
def closeLevel (lx : Lexer) : Lexer :=
  match lx.levels with
  | outer :: levels => { lx with level := outer.around lx.level, levels }
  | [] => lx

def closing (lx : Lexer) (kind : Token.Kind) : Option Lexer := do
  let lx ← lx.dropCandidate
  some ({ lx.closeLevel with keyAllowed := false }.pushSign kind)

def comma (lx : Lexer) : Option Lexer := do
  let lx ← lx.dropCandidate
  some ({ lx with keyAllowed := true }.pushSign .comma)

/-- The sign of a sequence item. In a block it may only stand where a key may. -/
def dash (lx : Lexer) : Option Lexer := do
  if !lx.inFlow ∧ !lx.keyAllowed then none
  else
    let c := lx.cursor
    let lx ← lx.beginBlock c.column lx.nextNumber .beginSequence c.line
    let lx ← lx.dropCandidate
    some ({ lx with keyAllowed := true }.pushSign .dash)

def key (lx : Lexer) : Option Lexer := do
  if !lx.inFlow ∧ !lx.keyAllowed then none
  else
    let c := lx.cursor
    let lx ← lx.beginBlock c.column lx.nextNumber .beginMapping c.line
    let lx ← lx.dropCandidate
    some ({ lx with keyAllowed := !lx.inFlow }.pushSign .key)

/-- The colon behind the candidate `k`. -/
def valueOf (lx : Lexer) (k : Candidate) : Option Lexer := do
  let lx := lx.insertAt k.number .key k.mark.line
  let lx ← lx.beginBlock k.mark.column k.number .beginMapping k.mark.line
  some ({ lx.clearCandidate with keyAllowed := false }.pushSign .value)

/-- A colon that no candidate stands before. -/
def valueAlone (lx : Lexer) : Option Lexer := do
  if !lx.inFlow ∧ !lx.keyAllowed then none
  else
    let c := lx.cursor
    let lx ← lx.beginBlock c.column lx.nextNumber .beginMapping c.line
    some ({ lx with keyAllowed := !lx.inFlow }.pushSign .value)

def value (lx : Lexer) : Option Lexer :=
  match lx.level.candidate with
  | none => lx.valueAlone
  | some k =>
      if k.isOpen lx.cursor.mark then lx.valueOf k
      else if k.required then none
      else lx.clearCandidate.valueAlone

/-- A token that may be a key, or stand before one: what is read there, the cursor behind it, and whether
another key may begin there. -/
def content (lx : Lexer) (kind : Token.Kind) (after : Cursor) (keyAllowed : Bool) : Option Lexer := do
  let line := lx.cursor.line
  let lx ← lx.noteCandidate
  some ({ lx with cursor := after, keyAllowed }.push kind line)

def plainScalar (lx : Lexer) : Option Lexer := do
  let c := lx.cursor
  let (cs, broken, after) ←
    Scalar.plain lx.inFlow lx.minColumn lx.budget .none c
  let lx ← lx.content (.scalar true (Text.ofChars cs)) after broken
  some (if lx.inFlow ∨ lx.minColumn ≤ after.column then lx.straighten else lx)

def quotedScalar (lx : Lexer) (quote : Char) : Option Lexer := do
  let c := lx.cursor
  let (cs, after) ← Scalar.quoted quote lx.budget (c.advance 1)
  lx.content (.scalar false (Text.ofChars cs)) after false

def blockScalar (lx : Lexer) (folded : Bool) : Option Lexer := do
  let c := lx.cursor
  let lx ← lx.dropCandidate
  let (cs, after) ← Scalar.block folded lx.blockColumn? lx.budget (c.advance 1)
  some ({ lx with cursor := after, keyAllowed := true }.push (.scalar false (Text.ofChars cs)) c.line)

/-- The token at the character `x`, which `rest` follows. -/
def single (lx : Lexer) (x : Char) (rest : List Char) : Option Lexer :=
  if x = '[' then lx.opening .openBracket
  else if x = '{' then lx.opening .openBrace
  else if x = ']' then lx.closing .closeBracket
  else if x = '}' then lx.closing .closeBrace
  else if x = ',' then lx.comma
  else if x = '-' ∧ startsBlank rest then lx.dash
  else if x = '?' ∧ (lx.inFlow ∨ startsBlank rest) then lx.key
  else if x = ':' ∧ (lx.inFlow ∨ startsBlank rest) then lx.value
  else if x = '*' then do
    let (name, after) ← Property.name? (lx.cursor.advance 1)
    lx.content (.alias name) after false
  else if x = '&' then do
    let (name, after) ← Property.name? (lx.cursor.advance 1)
    lx.content (.anchor name) after false
  else if x = '!' then do
    let ((handle, suffix), after) ← Property.tag? lx.cursor
    lx.content (.tag handle suffix) after false
  else if (x = '|' ∨ x = '>') ∧ !lx.inFlow then lx.blockScalar (x = '>')
  else if x = '\'' ∨ x = '"' then lx.quotedScalar x
  else if Scalar.startsPlain lx.inFlow (x :: rest) then lx.plainScalar
  else none

/-- Read the next token into the queue, and the tokens that the indentation asks for before it. -/
def fetch (lx : Lexer) : Option Lexer := do
  let line := lx.cursor.line
  let lx := toContent lx.budget lx
  let lx := (lx.endBlocks lx.cursor.column line).straighten
  if lx.nearEnd ∧ !lx.sound then none
  else
    let c := lx.cursor
    let lx ← match c.rest with
      | [] => lx.sourceEnd
      | x :: rest =>
          if x = '%' ∧ c.column = 0 then do
            let (kind, after) ← Property.directive? c
            lx.betweenDocuments kind after
          else if c.atMarker '-' then lx.betweenDocuments .documentStart (c.advance 3)
          else if c.atMarker '.' then lx.betweenDocuments .documentEnd (c.advance 3)
          else do
            let lx ← lx.single x rest
            if lx.queue.getLast?.any (·.kind = .dash) then some lx
            else some { lx with cursor := skipLineComment lx.cursor }
    if lx.cursor.rest = [] ∧ !lx.sound then none else some lx

/-! ## Taking tokens -/

/-- The number of tokens that are read ahead, with the next one. -/
def ahead : Nat := 3

/-- The candidate that is the next token, if there is one that is awaited. The levels around one whose
last candidate has been taken have none that has not been. -/
def headCandidate? (lx : Lexer) : Option Candidate :=
  ((lx.level :: lx.levels).takeWhile fun level => lx.taken ≤ level.last).findSome? fun level =>
    level.candidate.filter fun k => k.awaited && k.number == lx.taken

/-- Read until enough is known about the next token. -/
def fill : Nat → Lexer → Option Lexer
  | 0, _ => none
  | budget + 1, lx =>
      if lx.queue.length < ahead then lx.fetch.bind (fill budget)
      else match lx.headCandidate? with
        | none => some lx
        | some k =>
            if k.isOpen lx.cursor.mark then lx.fetch.bind (fill budget)
            else if k.required then none
            else some lx

/-- The next token, which stays in the queue. -/
def peek (lx : Lexer) : Option (Token × Lexer) := do
  let lx ← fill (lx.budget + ahead + 1) lx
  let token ← lx.queue.head?
  some (token, lx)

/-- Take the next token off the queue. -/
def skip (lx : Lexer) : Lexer := { lx with queue := lx.queue.drop 1, taken := lx.taken + 1 }

end Lexer

end LoopScript.Yaml
