/-
# LoopScript.Yaml.Scalar — the written forms of YAML scalars

A scalar stands plain, between single or double quotes, or as a block of indented lines. All of them may
run over several lines. Outside of literal blocks the line breaks are folded: one between two lines
becomes a space, and of several the first is dropped. A break by a separator is never folded.

Each function takes a scalar off the front and gives its characters and the cursor behind it, or `none`
if it is not well formed. A plain scalar and a block take the line breaks behind them with them. The
budget of each is to be greater than the number of characters that are still to be read.
-/
import LoopScript.Yaml.Cursor

namespace LoopScript.Yaml.Scalar

set_option autoImplicit false

/-! ## Gaps -/

/-- The blanks and line breaks between two words: the blanks before the first break, whether there is a
break, what the first break reads as, and what the others do. -/
structure Gap where
  blanks : List Char
  broken : Bool
  first : List Char
  others : List Char
deriving DecidableEq, Repr

namespace Gap

def none : Gap := ⟨[], false, [], []⟩

/-- The gap that a backslash at the end of a line opens: its break counts for nothing. -/
def escaped : Gap := ⟨[], true, [], []⟩

/-- What a gap comes to: blanks stay, unless there is a break among them, and breaks are folded. -/
def text (g : Gap) : List Char :=
  if !g.broken then g.blanks
  else if g.first = ['\n'] then if g.others = [] then [' '] else g.others
  else g.first ++ g.others

def withBreak (g : Gap) (text : List Char) : Gap :=
  if g.broken then { g with others := g.others ++ text } else ⟨[], true, text, []⟩

def withBlank (g : Gap) (blank : Char) : Gap :=
  if g.broken then g else { g with blanks := g.blanks ++ [blank] }

end Gap

/-- Take a gap off the front. On a line of its own a tab left of `minColumn` is refused. -/
def readGap (minColumn : Nat) : Nat → Gap → Cursor → Option (Gap × Cursor)
  | 0, _, _ => none
  | budget + 1, gap, c =>
      match c.rest with
      | [] => some (gap, c)
      | x :: _ =>
          if isBreak x then
            let (text, next) := c.nextLine
            readGap minColumn budget (gap.withBreak text) next
          else if !isBlank x then some (gap, c)
          else if gap.broken ∧ x = '\t' ∧ c.column < minColumn then none
          else readGap minColumn budget (gap.withBlank x) (c.advance 1)

/-! ## Plain scalars -/

/-- The characters that end a plain scalar within brackets and braces. -/
def isFlowMark (c : Char) : Bool :=
  c == ',' || c == '?' || c == '[' || c == ']' || c == '{' || c == '}'

/-- The characters a plain scalar does not begin with. -/
def isIndicator (c : Char) : Bool :=
  ['-', '?', ':', ',', '[', ']', '{', '}', '#', '&', '*', '!', '|', '>', '\'', '"', '%', '@',
    Char.ofNat 96].contains c

def startsPlain (flow : Bool) : List Char → Bool
  | [] => false
  | c :: rest =>
      !(isBlank c || isBreak c || isIndicator c) || (c == '-' && !rest.head?.any isBlank) ||
        (!flow && (c == '?' || c == ':') && !startsBlank rest)

/-- A word of a plain scalar. It ends at a blank, at a colon that is followed by a blank, and within
brackets and braces at one of their marks. -/
def plainWord (flow : Bool) : List Char → List Char
  | [] => []
  | c :: rest =>
      if isBlank c || isBreak c || (c == ':' && startsBlank rest) || (flow && isFlowMark c) then []
      else c :: plainWord flow rest

/-- A plain scalar behind the gap `gap`: its characters, and whether a line break stands behind its last
word. In a block its further lines begin at `minColumn` or behind it. -/
def plain (flow : Bool) (minColumn : Nat) : Nat → Gap → Cursor → Option (List Char × Bool × Cursor)
  | 0, _, _ => none
  | budget + 1, gap, c =>
      if c.atAnyMarker ∨ c.isAt '#' then some ([], gap.broken, c)
      else
        let word := plainWord flow c.rest
        let behind := c.advance word.length
        if word = [] then some ([], gap.broken, c)
        else if behind.rest = [] ∨ !startsBlank behind.rest then
          some (gap.text ++ word, false, behind)
        else do
          let (next, after) ← readGap minColumn budget .none behind
          if !flow ∧ after.column < minColumn then some (gap.text ++ word, next.broken, after)
          else
            let (more, broken, after) ← plain flow minColumn budget next after
            some (gap.text ++ word ++ more, broken, after)

/-! ## Quoted scalars -/

def hexValue? (c : Char) : Option Nat :=
  if '0' ≤ c ∧ c ≤ '9' then some (c.toNat - 48)
  else if 'a' ≤ c ∧ c ≤ 'f' then some (c.toNat - 87)
  else if 'A' ≤ c ∧ c ≤ 'F' then some (c.toNat - 55)
  else none

/-- The number that hexadecimal digits stand for, if there are `width` of them. -/
def hexNumber? (width : Nat) (cs : List Char) : Option Nat := do
  let digits ← (cs.take width).mapM hexValue?
  if digits.length = width then some (digits.foldl (fun n d => 16 * n + d) 0) else none

def escapeOf (c : Char) : Option Char :=
  match c with
  | '0' => some (Char.ofNat 0)
  | 'a' => some (Char.ofNat 7)
  | 'b' => some (Char.ofNat 8)
  | 't' | '\t' => some '\t'
  | 'n' => some '\n'
  | 'v' => some (Char.ofNat 11)
  | 'f' => some (Char.ofNat 12)
  | 'r' => some '\r'
  | 'e' => some (Char.ofNat 27)
  | ' ' => some ' '
  | '"' => some '"'
  | '\'' => some '\''
  | '\\' => some '\\'
  | 'N' => some (Char.ofNat 0x85)
  | '_' => some (Char.ofNat 0xA0)
  | 'L' => some (Char.ofNat 0x2028)
  | 'P' => some (Char.ofNat 0x2029)
  | _ => none

def hexWidth (c : Char) : Option Nat :=
  match c with
  | 'x' => some 2
  | 'u' => some 4
  | 'U' => some 8
  | _ => none

/-- The character that an escape behind its backslash stands for, and how many characters it takes. -/
def escape? : List Char → Option (Char × Nat)
  | [] => none
  | c :: rest =>
      match hexWidth c with
      | none => (escapeOf c).map (·, 1)
      | some width => do
          let n ← hexNumber? width rest
          if n.isValidChar then some (Char.ofNat n, width + 1) else none

/-- A quoted scalar behind its opening quote, through its closing one. No mark between documents may
stand in it. -/
def quoted (quote : Char) : Nat → Cursor → Option (List Char × Cursor)
  | 0, _ => none
  | budget + 1, c =>
      match c.rest with
      | [] => none
      | x :: rest =>
          if c.atAnyMarker then none
          else if x = quote then
            if quote = '\'' ∧ rest.head? = some '\'' then
              (quoted quote budget (c.advance 2)).map fun (cs, after) => ('\'' :: cs, after)
            else some ([], c.advance 1)
          else if isBlank x ∨ isBreak x then do
            let (gap, after) ← readGap 0 (budget + 1) .none c
            let (cs, after) ← quoted quote budget after
            some (gap.text ++ cs, after)
          else if x = '\\' ∧ quote = '"' then
            if rest.head?.any isBreak then do
              let next := (c.advance 1).skipBreak
              let (gap, after) ← readGap 0 (budget + 1) .escaped next
              let (cs, after) ← quoted quote budget after
              some (gap.text ++ cs, after)
            else do
              let (y, width) ← escape? rest
              let (cs, after) ← quoted quote budget (c.advance (width + 1))
              some (y :: cs, after)
          else (quoted quote budget (c.advance 1)).map fun (cs, after) => (x :: cs, after)

/-! ## Blocks -/

/-- What happens to the line breaks at the end of a block. -/
inductive Chomp where
  | clip
  | strip
  | keep
deriving DecidableEq, Repr

/-- The marks behind the sign of a block: how its end is treated, and how far it is indented, if that is
given. -/
structure BlockHeader where
  chomp : Chomp
  indent : Option Nat
deriving DecidableEq, Repr

def chompOf? (c : Char) : Option Chomp :=
  if c = '+' then some .keep else if c = '-' then some .strip else none

def indentOf? (c : Char) : Option Nat := if '1' ≤ c ∧ c ≤ '9' then some (c.toNat - 48) else none

/-- The marks of a block, in either order. -/
def blockHeader (marks : List Char) : Option BlockHeader :=
  match marks with
  | [] => some ⟨.clip, none⟩
  | [a] =>
      match chompOf? a, indentOf? a with
      | some chomp, _ => some ⟨chomp, none⟩
      | none, some n => some ⟨.clip, some n⟩
      | none, none => none
  | [a, b] =>
      match chompOf? a, indentOf? b, indentOf? a, chompOf? b with
      | some chomp, some n, _, _ => some ⟨chomp, some n⟩
      | _, _, some n, some chomp => some ⟨chomp, some n⟩
      | _, _, _, _ => none
  | _ => none

/-- Whether a column lies before the indentation of a block, as all do while that is not known. -/
def insideIndent (indent : Option Nat) (column : Nat) : Bool :=
  match indent with
  | some n => column < n
  | none => true

/-- Skip empty lines before a line of a block, with the spaces of its indentation: what the line breaks
read as, the widest run of spaces, and the cursor behind them. A tab in the indentation is refused. -/
def blockBreaks (indent : Option Nat) :
    Nat → (breaks : List Char) → (widest : Nat) → Cursor → Option (List Char × Nat × Cursor)
  | 0, _, _, _ => none
  | budget + 1, breaks, widest, c =>
      match c.rest with
      | [] => some (breaks, max widest c.column, c)
      | x :: _ =>
          if x = ' ' ∧ insideIndent indent c.column then
            blockBreaks indent budget breaks widest (c.advance 1)
          else if x = '\t' ∧ insideIndent indent c.column then none
          else if isBreak x then
            let (text, next) := c.nextLine
            blockBreaks indent budget (breaks ++ text) (max widest c.column) next
          else some (breaks, max widest c.column, c)

/-- The lines of a block that is indented by `indent` columns: `lead` is the line break before the next
line, if it is still to be written, `breaks` those of the empty lines behind it, and `blankBefore` says
that the line before began with a blank. -/
def blockLines (folded : Bool) (chomp : Chomp) (indent : Nat) :
    Nat → (blankBefore : Bool) → (lead breaks : List Char) → Cursor → Option (List Char × Cursor)
  | 0, _, _, _, _ => none
  | budget + 1, blankBefore, lead, breaks, c =>
      if c.column = indent ∧ c.rest ≠ [] then do
        let blank := c.rest.head?.any isBlank
        let joint :=
          if folded ∧ !blankBefore ∧ !blank ∧ lead = ['\n'] then
            if breaks = [] then [' '] else []
          else lead
        let (line, behind) := c.span fun x => !isBreak x
        let (lead, below) := behind.nextLine
        let (more, _, next) ← blockBreaks (some indent) (budget + 1) [] 0 below
        let (cs, after) ← blockLines folded chomp indent budget blank lead more next
        some (joint ++ breaks ++ line ++ cs, after)
      else
        some ((if chomp = .strip then [] else lead) ++ (if chomp = .keep then breaks else []), c)

/-- A block behind its sign. `parent` is the column of what it belongs to, if that is in a block. -/
def block (folded : Bool) (parent : Option Nat) (budget : Nat) (c : Cursor) :
    Option (List Char × Cursor) := do
  let marks := (c.rest.take 2).takeWhile fun x => x.isDigit || x == '+' || x == '-'
  let header ← blockHeader marks
  let behind := (c.advance marks.length).skipWhile isBlank
  if !(behind.atLineEnd ∨ behind.isAt '#') then none
  else
    let below := behind.toLineEnd.skipBreak
    let given := header.indent.map fun n => parent.getD 0 + n
    let (breaks, widest, next) ← blockBreaks given budget [] 0 below
    let least := (parent.map (· + 1)).getD 1
    let indent := given.getD (max widest least)
    blockLines folded header.chomp indent budget false [] breaks next

end LoopScript.Yaml.Scalar
