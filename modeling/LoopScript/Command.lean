/-
# LoopScript.Command — the command line

There are two commands that work on a script: `run` runs it, or with the switch `check` only reads it;
`analyze` lists what it cannot run. Without a script, `run` takes the one that the manifest names, by
default the manifest in the working directory. `repl` starts an interactive session, and everything else
shows how the program is used.

A command is carried out on a disk and comes to a `Report`: what goes to the two outputs, and the error
it ends with, if any. It comes to nothing if a run spends its budget.
-/
import LoopScript.Engine
import LoopScript.Flags
import LoopScript.Lint
import LoopScript.Manifest

namespace LoopScript

set_option autoImplicit false

structure Report where
  output : Text
  errorOutput : Text
  error : Option Text
deriving DecidableEq, Repr

namespace Report

def success (output : Text) : Report := ⟨output, [], none⟩

def failure (output error : Text) : Report := ⟨output, [], some error⟩

end Report

namespace Command

/-- The manifest that is looked for if none is named. -/
def defaultManifest : Text := utf8 "codescript.yml"

def usage : Text :=
  utf8 "Usage: codescript run [flags] [script]\n" ++
  utf8 "       codescript analyze <script>\n" ++
  utf8 "       codescript repl\n" ++
  utf8 "Flags:\n" ++
  utf8 "  -check\n" ++
  utf8 "    only compile the script without executing\n" ++
  utf8 "  -manifest <path>\n" ++
  utf8 "    project manifest naming the entry script (default " ++ Text.quote defaultManifest ++
  utf8 ")\n"

def runOptions : List (Text × OptionKind) :=
  [(utf8 "check", .switch), (utf8 "manifest", .text)]

section

variable {m : Type → Type} [Monad m]

def scriptOfManifest (disk : Disk m) (path : Text) : m (Except Text Text) := do
  match ← Manifest.load disk path with
  | .ok manifest => return .ok manifest.mainPath
  | .error e => return .error e.message

/-- The script to run if none is given: the one that the named manifest names, or the default one. -/
def defaultScript (disk : Disk m) (manifest : Text) : m (Except Text Text) := do
  if manifest ≠ [] then scriptOfManifest disk manifest
  else match ← disk.read defaultManifest with
    | .error .missing =>
        return .error (utf8 "codescript run: script path required (no " ++ defaultManifest ++
          utf8 " found)")
    | _ => scriptOfManifest disk defaultManifest

/-- Run a script, or only read it. -/
def runSource (budget : Nat) (checkOnly : Bool) (source : Text) : Option Report :=
  match Script.compile source with
  | .error ds =>
      some (.failure [] (utf8 "compile failed: " ++ Diagnostic.renderAll source ds))
  | .ok script =>
      if checkOnly then some (.success [])
      else match script.run budget (Engine.initial.newExecution (.empty none)) with
        | .ok _ x => some (.success x.sink.contents)
        | .error e x => some (.failure x.sink.contents (utf8 "execution failed: " ++ e.message))
        | .exhausted => none

def run (budget : Nat) (disk : Disk m) (args : List Text) : m (Option Report) := do
  match Flags.parse runOptions args with
  | .error e => return some (.failure [] e.message)
  | .ok (flags, others) =>
      let checkOnly := Flags.isOn flags (utf8 "check")
      let manifest := (Flags.value? flags (utf8 "manifest")).getD []
      let chosen : Except Text Text ←
        match others with
        | [] => defaultScript disk manifest
        | [path] => pure (.ok path)
        | _ => pure (.error (utf8 "codescript run: expected at most one script path"))
      match chosen with
      | .error message => return some (.failure [] message)
      | .ok path =>
          match ← disk.read path with
          | .error e => return some (.failure [] (utf8 "read script: " ++ e.message path))
          | .ok source => return runSource budget checkOnly source

/-- A warning as a line: the file, the place and the wording. -/
def warningLine (path : Text) (w : Warning) : Text :=
  path ++ utf8 ":" ++ Position.render ⟨max w.pos.line 1, max w.pos.column 1⟩ ++ utf8 ": " ++
    w.message ++ utf8 "\n"

def analyzeSource (path source : Text) : Report :=
  match Program.read source with
  | .error ds =>
      .failure [] (utf8 "analysis compile failed: " ++ Diagnostic.renderAll source ds)
  | .ok program =>
      match Lint.warnings Engine.initial.builtins.names program with
      | [] => .success (utf8 "No issues found\n")
      | warnings =>
          .failure (warnings.flatMap (warningLine path))
            (utf8 "analysis found " ++ Text.ofNat warnings.length ++ utf8 " issue(s)")

def analyze (disk : Disk m) (args : List Text) : m Report := do
  match Flags.parse [] args with
  | .error e => return .failure [] e.message
  | .ok (_, []) => return .failure [] (utf8 "codescript analyze: script path required")
  | .ok (_, path :: _) =>
      let full := Path.absolute disk.workingDirectory path
      match ← disk.read full with
      | .error e => return .failure [] (utf8 "read script: " ++ e.message full)
      | .ok source => return analyzeSource full source

inductive Request where
  | run (args : List Text)
  | analyze (args : List Text)
  | interactive
  | help
  | unknown
deriving DecidableEq, Repr

/-- What a command line asks for, by its first word. -/
def requestOf (args : List Text) : Request :=
  match args with
  | [] => .unknown
  | word :: rest =>
      if word = utf8 "run" then .run rest
      else if word = utf8 "analyze" then .analyze rest
      else if word = utf8 "repl" then .interactive
      else if word = utf8 "help" ∨ word = utf8 "-h" ∨ word = utf8 "--help" then .help
      else .unknown

/-- Carry out a request; an interactive session is not one of those that end in a report. -/
def carryOut (budget : Nat) (disk : Disk m) (request : Request) : m (Option Report) := do
  match request with
  | .run args => run budget disk args
  | .analyze args => return some (← analyze disk args)
  | .interactive => return some (.success [])
  | .help => return some ⟨[], usage, none⟩
  | .unknown => return some ⟨[], usage, some (utf8 "invalid command")⟩

end

end Command

end LoopScript
