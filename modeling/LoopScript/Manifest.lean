/-
# LoopScript.Manifest — project files

A manifest is a YAML mapping with two fields: the name of a project and the script to run, given relative
to the manifest. `load` finds a manifest on a disk, reads it, and checks it: a name and a script must be
given, and the script's path must be relative. White space around the two values does not count.

There are several ways for this to fail (`LoadError`): the path may be empty or lead to no file, the file
may be no YAML (`Yaml.ReadError`) or hold no document, the document may have the wrong shape (`Problem`), or
the fields may not pass the check (`Issue`).
-/
import LoopScript.Disk
import LoopScript.Manifest.Fields
import LoopScript.Text.Blank
import LoopScript.Yaml.Reader

namespace LoopScript

set_option autoImplicit false

/-- A project file: where it is, the project's name, and the script to run. -/
structure Manifest where
  path : Text
  name : Text
  main : Text
deriving DecidableEq, Repr

namespace Manifest

inductive Issue where
  | noName
  | noMain
  | mainNotRelative
deriving DecidableEq, Repr

def Issue.message : Issue → Text
  | .noName => utf8 "name must be provided"
  | .noMain => utf8 "main must name a script"
  | .mainNotRelative => utf8 "main must be relative to the manifest"

def issues (m : Manifest) : List Issue :=
  (if m.name = [] then [.noName] else []) ++
    (if m.main = [] then [.noMain] else if Path.isAbsolute m.main then [.mainNotRelative] else [])

def issuesMessage (path : Text) (issues : List Text) : Text :=
  if issues = [] then utf8 "manifest: invalid configuration"
  else
    utf8 "manifest " ++ path ++ utf8 " is invalid:" ++
      issues.flatMap fun issue => utf8 "\n- " ++ issue

def mainPath (m : Manifest) : Text := Path.join (Path.directory m.path) m.main

/-! ## Loading -/

inductive LoadError where
  | emptyPath
  | unreadable (path : Text) (error : FileError)
  | unusable (path : Text) (error : Yaml.ReadError)
  | noDocument (path : Text)
  | wrongShape (path : Text) (problems : List Problem)
  | invalid (path : Text) (issues : List Issue)
deriving DecidableEq, Repr

def LoadError.message : LoadError → Text
  | .emptyPath => utf8 "manifest: empty path"
  | .unreadable path .isADirectory =>
      utf8 "manifest: parse " ++ path ++ utf8 ": yaml: input error: " ++
        FileError.message path .isADirectory
  | .unreadable path error =>
      utf8 "manifest: open " ++ path ++ utf8 ": " ++ error.message path
  | .unusable path error => utf8 "manifest: parse " ++ path ++ utf8 ": yaml: " ++ error.message
  | .noDocument path => utf8 "manifest: " ++ path ++ utf8 " is empty"
  | .wrongShape path problems =>
      utf8 "manifest: parse " ++ path ++ utf8 ": yaml: unmarshal errors:" ++
        problems.flatMap fun p => utf8 "\n  " ++ p.message
  | .invalid path issues => issuesMessage path (issues.map Issue.message)

/-- The manifest with these fields, if nothing is wrong with them. -/
def ofFields (path : Text) (fields : Fields) : Except LoadError Manifest :=
  let m : Manifest := ⟨path, Text.trim fields.name, Text.trim fields.main⟩
  if fields.problems ≠ [] then .error (.wrongShape path fields.problems)
  else if m.issues ≠ [] then .error (.invalid path m.issues)
  else .ok m

/-- The manifest that a text holds. No document is nested deeper than its text is long, aliases
included. -/
def ofText (path source : Text) : Except LoadError Manifest :=
  match Yaml.read source with
  | .error error => .error (.unusable path error)
  | .ok none => .error (.noDocument path)
  | .ok (some root) =>
      match Fields.ofNode (source.length + 2) root with
      | .error error => .error (.unusable path error)
      | .ok fields => ofFields path fields

def load {m : Type → Type} [Monad m] (disk : Disk m) (path : Text) : m (Except LoadError Manifest) :=
  if path = [] then pure (.error .emptyPath)
  else do
    let full := Path.absolute disk.workingDirectory path
    match ← disk.read full with
    | .error e => return .error (.unreadable full e)
    | .ok source => return ofText full source

end Manifest

end LoopScript
