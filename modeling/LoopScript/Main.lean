/-
# LoopScript.Main — the program

Reads files, writes the report of a command to the two outputs, and keeps an interactive session going:
each line of input is submitted to a console, and what is new in it is printed.
-/
import LoopScript.Command
import LoopScript.Console.View

namespace LoopScript.Main

set_option autoImplicit false

/-- More passes than any loop takes while someone waits for it. -/
def passes : Nat := 1000000000000000000

def bytesOf (t : Text) : ByteArray := ⟨t.toArray⟩

/-- A text as a string; bytes that belong to no character read as U+FFFD. -/
def stringOf (t : Text) : String := String.ofList t.chars

/-- The system's number for a name that is too long. -/
def nameTooLong : UInt32 := 36

/-- Why the system could not read a file. An error that names the file arose when it was opened, and
one that does not when it was read. -/
def fileError : IO.Error → FileError
  | .inappropriateType (some _) _ _ => .notADirectory
  | .inappropriateType none _ _ => .isADirectory
  | .invalidArgument _ code _ => if code = nameTooLong then .nameTooLong else .invalidPath
  | _ => .missing

def disk : IO (Disk IO) := do
  let here ← IO.currentDir
  return {
    workingDirectory := utf8 here.toString
    read := fun path => do
      match Disk.refused? path with
      | some e => return .error e
      | none =>
          try
            let bytes ← IO.FS.readBinFile (stringOf path)
            return .ok bytes.toList
          catch e => return .error (fileError e) }

/-- The lines a session has to show after an event: its new transcript entries without the lines that
were typed, and a panel or a help that has just been opened. -/
def news (before after : Console) : List Text :=
  let entries := after.transcript.drop before.transcript.length
  (entries.flatMap fun e => { e with source := [] : Console.Entry }.lines) ++
    (if after.panel = before.panel then [] else Console.linesOf after.panelText) ++
    (if after.fullHelp = before.fullHelp then [] else Text.splitLines after.helpText)

/-- Keep a session going until it is left or the input ends. -/
partial def interact (input output : IO.FS.Stream) (c : Console) : IO Unit := do
  output.putStr (stringOf c.prompt.text)
  output.flush
  let line ← input.getLine
  if line.isEmpty then return
  match c.updates passes [.set (utf8 (line.dropEndWhile (· == '\n')).toString), .submit] with
  | none => output.putStrLn "too many passes"
  | some next =>
      for line in news c next do
        output.write (bytesOf (line ++ [Text.newline]))
      output.flush
      if !next.quitting then interact input output next

def finish (report : Report) : IO UInt32 := do
  (← IO.getStdout).write (bytesOf report.output)
  let errors ← IO.getStderr
  errors.write (bytesOf report.errorOutput)
  match report.error with
  | none => return 0
  | some message =>
      errors.write (bytesOf (message ++ [Text.newline]))
      return 1

end LoopScript.Main

open LoopScript in
def main (args : List String) : IO UInt32 := do
  match Command.requestOf (args.map utf8) with
  | .interactive =>
      Main.interact (← IO.getStdin) (← IO.getStdout) Console.initial
      return 0
  | request =>
      match ← Command.carryOut Main.passes (← Main.disk) request with
      | some report => Main.finish report
      | none => Main.finish (.failure [] (utf8 "too many passes"))
