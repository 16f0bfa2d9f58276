/-
# LoopScript.Console.Basic — an interactive session, line by line

A `Console` is what an interactive session holds: the input line, the lines of a block that is still
open, the transcript, the lines to recall, and the bindings that earlier lines made. `update` takes it
through one event. What the input line holds after an edit is up to the toolkit.

A submitted line that begins with a colon is a command, if no block is open. Any other line joins the
open block; once every brace is closed, the block is run as one script and reported in a transcript
entry. Bindings made before an error stay.

`update` answers nothing if a run spends its budget.
-/
import LoopScript.Console.Toolkit
import LoopScript.Engine
import LoopScript.Text.Blank

namespace LoopScript

set_option autoImplicit false

namespace Console

/-- One submitted block, and what came of it. -/
structure Entry where
  source : List Text
  display : List Text
  echo : Text
  error : Text
  note : Text
deriving DecidableEq, Repr

def Entry.ofNote (note : Text) : Entry := ⟨[], [], [], [], note⟩

def Entry.ofError (error : Text) : Entry := ⟨[], [], [], error, []⟩

/-- What the input line begins with: `main` for a new block, `continuation` within an open one. -/
inductive Prompt where
  | main
  | continuation
deriving DecidableEq, Repr

def Prompt.text : Prompt → Text
  | .main => utf8 "code> "
  | .continuation => utf8 "  ... "

inductive Panel where
  | closed
  | bindings
  | grammar
deriving DecidableEq, Repr

/-- Open a panel, or close it if it is the one that is open. -/
def Panel.toggle (p target : Panel) : Panel := if p = target then .closed else target

end Console

/-- The state of an interactive session. -/
structure Console where
  toolkit : Console.Toolkit
  input : Text
  prompt : Console.Prompt
  inputWidth : Int
  helpWidth : Int
  pending : List Text
  transcript : List Console.Entry
  remembered : List Text
  recallAt : Option Nat
  panel : Console.Panel
  height : Int
  ready : Bool
  fullHelp : Bool
  quitting : Bool
  engine : Engine
  env : Env

namespace Console

def start (toolkit : Toolkit) : Console where
  toolkit := toolkit
  input := []
  prompt := .main
  inputWidth := 72
  helpWidth := 0
  pending := []
  transcript := []
  remembered := []
  recallAt := none
  panel := .closed
  height := 0
  ready := false
  fullHelp := false
  quitting := false
  engine := .initial
  env := Engine.initial.builtins

abbrev initial : Console := start .standard

inductive Event where
  | set (t : Text)
  | type (t : Text)
  | submit
  | discard
  | older
  | newer
  | complete
  | toggleBindings
  | toggleGrammar
  | clear
  | quit
  | erase
  | resize (width height : Int)
deriving DecidableEq, Repr

def setInput (c : Console) (t : Text) : Console := { c with input := c.toolkit.clean t }

def report (c : Console) (e : Entry) : Console := { c with transcript := c.transcript ++ [e] }

def leave (c : Console) : Console := { c with quitting := true }

/-! ## Running a block -/

/-- The displayed lines: the pieces of what was written, without the line feed at its end. -/
def displayLines (written : Text) : List Text :=
  if written = [] then []
  else Text.splitLines (if written.getLast? = some Text.newline then written.dropLast else written)

/-- The value a program bound last, if its last statement is an assignment. -/
def echoOf (program : Program) (env : Env) : Text :=
  match program.getLast? with
  | some (.assign target _ _) =>
      match env.get? target with
      | some v => target ++ utf8 " = " ++ v.inspect
      | none => []
  | _ => []

def evaluate (budget : Nat) (c : Console) (source : Text) : Option Console :=
  let lines := Text.splitLines source
  match Script.compile source with
  | .error ds => some (c.report { Entry.ofError (Diagnostic.renderAll source ds) with source := lines })
  | .ok script =>
      match script.run budget ⟨c.env, .empty none, none⟩ with
      | .ok _ x =>
          some ({ c with env := x.env }.report
            ⟨lines, displayLines x.sink.contents, echoOf script.program x.env, [], []⟩)
      | .error e x =>
          some ({ c with env := x.env }.report
            ⟨lines, displayLines x.sink.contents, [], e.message, []⟩)
      | .exhausted => none

/-! ## Commands -/

inductive Command where
  | quit
  | help
  | bindings
  | grammar
  | clear
  | reset
deriving DecidableEq, Repr

def Command.ofWord? (word : Text) : Option Command :=
  if word = utf8 ":quit" ∨ word = utf8 ":q" then some .quit
  else if word = utf8 ":help" ∨ word = utf8 ":h" then some .help
  else if word = utf8 ":bindings" ∨ word = utf8 ":b" then some .bindings
  else if word = utf8 ":syntax" ∨ word = utf8 ":s" then some .grammar
  else if word = utf8 ":clear" ∨ word = utf8 ":c" then some .clear
  else if word = utf8 ":reset" ∨ word = utf8 ":r" then some .reset
  else none

def unknownCommand (command : Text) : Text :=
  utf8 "unknown command " ++ command ++
    utf8 " (try :help, :bindings, :syntax, :clear, :reset, :quit)"

/-- Carry out a line that begins with a colon. -/
def runCommand (c : Console) (line : Text) : Console :=
  match Command.ofWord? (Text.firstWord line) with
  | some .quit => c.leave
  | some .help => { c with fullHelp := !c.fullHelp }
  | some .bindings => { c with panel := c.panel.toggle .bindings }
  | some .grammar => { c with panel := c.panel.toggle .grammar }
  | some .clear => { c with transcript := [] }
  | some .reset =>
      { c with env := c.engine.builtins }.report
        (.ofNote (utf8 "bindings reset; only builtins remain"))
  | none => c.report (.ofError (unknownCommand line))

/-! ## Events -/

def isCommand (trimmed : Text) : Bool := Text.startsWith trimmed (utf8 ":")

/-- Add a line to the open block, and run the block if every brace is closed. -/
def addLine (budget : Nat) (c : Console) (line : Text) : Option Console :=
  let lines := c.pending ++ [line]
  let source := Text.joinLines lines
  if 0 < Token.openBraces source then
    some { c with pending := lines, prompt := .continuation }
  else { c with pending := [], prompt := .main }.evaluate budget source

def submit (budget : Nat) (c : Console) : Option Console :=
  let line := c.input
  let trimmed := Text.trim line
  let c := { c with input := [], recallAt := none }
  if c.pending = [] ∧ trimmed = [] then some c
  else if c.pending = [] ∧ isCommand trimmed then some (c.runCommand trimmed)
  else if trimmed = [] then c.addLine budget line
  else { c with remembered := c.remembered ++ [line] }.addLine budget line

/-- Drop the open block, or empty the input line if there is none. -/
def discard (c : Console) : Console :=
  if c.pending = [] then c.setInput []
  else
    { c with pending := [], input := [], prompt := .main }.report
      (.ofNote (utf8 "dropped " ++ Text.ofNat c.pending.length ++ utf8 " unfinished line(s)"))

def showRecalled (c : Console) (i : Nat) : Console :=
  { c with recallAt := some i, input := c.toolkit.clean (c.remembered.getD i []) }

/-- Step to the line entered before the one shown; the oldest one stays. -/
def older (c : Console) : Console :=
  if c.remembered = [] then c
  else match c.recallAt with
    | none => c.showRecalled (c.remembered.length - 1)
    | some i => c.showRecalled (i - 1)

/-- Step to the line entered after the one shown; behind the newest one the input line is empty. -/
def newer (c : Console) : Console :=
  if c.remembered = [] then c
  else match c.recallAt with
    | none => c
    | some i =>
        if i + 1 < c.remembered.length then c.showRecalled (i + 1)
        else { c with recallAt := none, input := [] }

/-- Cut a line behind the first byte of its last character that names do not have: what stands before
the name at its end, and what is completed. -/
def splitStem (line : Text) : Text × Text :=
  let backwards := line.runes.reverse
  let inName (r : Rune) : Bool := Token.isNameChar r.char
  let name := Text.ofRunes (backwards.takeWhile inName).reverse
  match backwards.dropWhile inName with
  | [] => ([], name)
  | r :: before => (Text.ofRunes before.reverse ++ r.bytes.take 1, r.bytes.drop 1 ++ name)

/-- The names that begin with `stem`, sorted and each once. -/
def candidates (stem : Text) (names : List Text) : List Text :=
  let found := (Token.keywords ++ names).filter fun word => Text.startsWith word stem
  (found.mergeSort fun a b => !(b < a)).eraseReps

def complete (c : Console) : Console :=
  let (before, stem) := splitStem c.input
  if stem = [] then c
  else match candidates stem c.env.names with
    | [] => c
    | [word] => c.setInput (before ++ word)
    | words => c.report (.ofNote (utf8 "candidates: " ++ Text.joinWith (utf8 "  ") words))

/-- The width of the input line in a window, never less than twenty columns. -/
def widthIn (window : Int) : Int := max (window - 6 - 2) 20

/-- The session after an event; nothing if a run spends the budget. -/
def update (budget : Nat) (c : Console) : Event → Option Console
  | .set t => some (c.setInput t)
  | .type t => some { c with input := c.toolkit.typed c.input t }
  | .submit => c.submit budget
  | .discard => some c.discard
  | .older => some c.older
  | .newer => some c.newer
  | .complete => some c.complete
  | .toggleBindings => some { c with panel := c.panel.toggle .bindings }
  | .toggleGrammar => some { c with panel := c.panel.toggle .grammar }
  | .clear => some { c with transcript := [] }
  | .quit => some c.leave
  | .erase => some { c with input := c.toolkit.erased c.input }
  | .resize width height =>
      some { c with inputWidth := widthIn width, helpWidth := width, height := height, ready := true }

def asksToLeave (c : Console) : Event → Bool
  | .quit => true
  | .submit =>
      let trimmed := Text.trim c.input
      c.pending.isEmpty && Command.ofWord? (Text.firstWord trimmed) == some .quit
  | _ => false

def updates (budget : Nat) : Console → List Event → Option Console
  | c, [] => some c
  | c, e :: rest => (c.update budget e).bind fun c => updates budget c rest

end Console

end LoopScript
