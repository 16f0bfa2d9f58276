/-
# LoopScript.Console.View — what an interactive session shows

The screen has a title, as much of the end of the transcript as fits the window, the open panel, the lines
of the open block, the input line, and the help. The transcript is cut so that the whole fits the window's
height (`length_fit`); if the rest leaves no room for it, it is shown in full. The toolkit lays out the
panel, the input line and the help, and says how high they are.
-/
import LoopScript.Console.Basic

namespace LoopScript.Console

set_option autoImplicit false

/-- Lines with the main prompt before the first and the continuation prompt before the others. -/
def prompted : List Text → List Text
  | [] => []
  | line :: more =>
      (Prompt.main.text ++ line) :: more.map fun line => Prompt.continuation.text ++ line

/-- The lines of a text; none if it is empty. -/
def linesOf (t : Text) : List Text := if t = [] then [] else Text.splitLines t

def lineOf (t : Text) : List Text := if t = [] then [] else [t]

def Entry.lines (e : Entry) : List Text :=
  prompted e.source ++ e.display ++ lineOf e.echo ++ linesOf e.error ++ lineOf e.note

def transcriptLines (c : Console) : List Text := c.transcript.flatMap Entry.lines

/-! ## Panels -/

def bindingLine (name : Text) (v : Value) : Text :=
  name ++ utf8 " " ++ v.kind.name ++ utf8 " " ++ v.inspect

/-- The variables and then the functions, each sorted by name. -/
def bindingRows (env : Env) : List Text :=
  let isFunction (e : Text × Value) : Bool := e.2.kind == .function
  let data := (env.entries.filter fun e => !isFunction e).map fun e => bindingLine e.1 e.2
  let functions := (env.entries.filter isFunction).map Prod.fst
  [utf8 "bindings"] ++
    (if data = [] then [utf8 "no variables yet; assign with name = value"] else data) ++
    (if functions = [] then [] else [utf8 "functions: " ++ Text.joinWith (utf8 ", ") functions])

def keywordNotes : List (String × String) :=
  [("while", "while cond \x7b ... \x7d else \x7b ... \x7d  loop while cond is true; else runs once if the body never did"),
    ("until", "until cond \x7b ... \x7d else \x7b ... \x7d  loop while cond is false"),
    ("if", "parsed, rejected when run"),
    ("else", "after a loop block: a block, or an if (rejected when run)"),
    ("and", "parsed, rejected when run"),
    ("or", "parsed, rejected when run"),
    ("xor", "parsed, rejected when run"),
    ("true", "boolean literal"),
    ("false", "boolean literal"),
    ("null", "displays as an empty line")]

/-- A word and its note, the words in a column of six. -/
def noteLine (entry : String × String) : Text :=
  let word := utf8 entry.1
  word ++ List.replicate (6 - word.length) Text.space ++ utf8 " " ++ utf8 entry.2

def grammarRows : List Text :=
  [utf8 "syntax"] ++ keywordNotes.map noteLine ++
    [[],
      utf8 "name = expr          bind in the single session namespace",
      utf8 "+ &                  add numbers, or join when either side is text",
      utf8 "-                    subtract numbers (text joins, as with +)",
      utf8 "<                    compare numbers; == != <= > >= are rejected",
      utf8 "# ...                comment to end of line; ';' ends a statement"]

def bindingsPanel (c : Console) : Text := c.toolkit.framed (Text.joinLines (bindingRows c.env))

def grammarPanel (c : Console) : Text := c.toolkit.framed (Text.joinLines grammarRows)

def panelText (c : Console) : Text :=
  match c.panel with
  | .closed => []
  | .bindings => c.bindingsPanel
  | .grammar => c.grammarPanel

/-! ## The input line and the help -/

/-- The input line with its prompt; an empty one shows an example. -/
def inputText (c : Console) : Text :=
  c.toolkit.field c.prompt.text (utf8 "DISPLAY(\"hello\")") c.inputWidth c.input

namespace KeyHelp

def submit : KeyHelp := ⟨utf8 "enter", utf8 "run, or continue an open block"⟩
def discard : KeyHelp := ⟨utf8 "esc", utf8 "drop the open block"⟩
def older : KeyHelp := ⟨utf8 "↑", utf8 "older line"⟩
def newer : KeyHelp := ⟨utf8 "↓", utf8 "newer line"⟩
def complete : KeyHelp := ⟨utf8 "tab", utf8 "complete name"⟩
def bindings : KeyHelp := ⟨utf8 "ctrl+b", utf8 "bindings"⟩
def grammar : KeyHelp := ⟨utf8 "ctrl+t", utf8 "syntax"⟩
def clear : KeyHelp := ⟨utf8 "ctrl+l", utf8 "clear transcript"⟩
def quit : KeyHelp := ⟨utf8 "ctrl+c", utf8 "quit"⟩

end KeyHelp

/-- The help: the most useful keys, or all of them. -/
def helpText (c : Console) : Text :=
  if c.fullHelp then
    c.toolkit.fullHelp c.helpWidth [[.submit, .discard, .complete], [.older, .newer, .clear],
      [.bindings, .grammar, .quit]]
  else c.toolkit.shortHelp c.helpWidth [.submit, .complete, .bindings, .grammar, .quit]

/-! ## The whole view -/

/-- The height of all that is not transcript, with a line to spare, and another one if a panel is open. -/
def chrome (c : Console) : Int :=
  let panel := c.panelText
  4 + c.pending.length + c.toolkit.height c.helpText +
    (if panel = [] then 0 else c.toolkit.height panel + 1)

/-- The end of a list that fits `room` places, if there is any room. -/
def fit (room : Int) (lines : List Text) : List Text :=
  if 0 < room then lines.drop (lines.length - room.toNat) else lines

def shownTranscript (c : Console) : List Text := fit (c.height - c.chrome) c.transcriptLines

def title : Text := utf8 "codescript  statements run as you enter them"

/-- A line with its line feed. -/
def ended (line : Text) : Text := line ++ [Text.newline]

/-- What a session shows, as one text. -/
def screen (c : Console) : Text :=
  if c.quitting then ended (utf8 "bye")
  else if !c.ready then utf8 "starting codescript..."
  else
    ended title ++ ended [] ++ c.shownTranscript.flatMap ended ++
      (if c.panelText = [] then [] else ended c.panelText) ++
      (prompted c.pending).flatMap ended ++ ended c.inputText ++ c.helpText

theorem length_fit {room : Int} (h : 0 < room) (lines : List Text) :
    ((fit room lines).length : Int) ≤ room := by
  rw [fit, if_pos h, List.length_drop]
  omega

end LoopScript.Console
