/-
# LoopScript.Disk — reading files

A `Disk` is what a program needs to know of files: the working directory, and what a path holds. It is
given for any monad `m`, so that the same program runs on real files and on a listed set of them.

`Disk.ofFiles` is the second: a directory that holds exactly the listed files and the directories above
them. A path is walked part by part, as a file system does: every part but the last must be a
directory, and `..` leads to the directory above. A path that holds a zero byte names nothing, and
neither a path nor one of its parts may be too long.
-/
import LoopScript.Path

namespace LoopScript

set_option autoImplicit false

inductive FileError where
  | missing
  | notADirectory
  | isADirectory
  | invalidPath
  | nameTooLong
deriving DecidableEq, Repr

def FileError.message (path : Text) : FileError → Text
  | .missing => utf8 "open " ++ path ++ utf8 ": no such file or directory"
  | .notADirectory => utf8 "open " ++ path ++ utf8 ": not a directory"
  | .isADirectory => utf8 "read " ++ path ++ utf8 ": is a directory"
  | .invalidPath => utf8 "open " ++ path ++ utf8 ": invalid argument"
  | .nameTooLong => utf8 "open " ++ path ++ utf8 ": file name too long"

/-- What a program needs to know of files. -/
structure Disk (m : Type → Type) where
  workingDirectory : Text
  read : Text → m (Except FileError Text)

namespace Disk

inductive Place where
  | file (contents : Text)
  | directory

/-- A listed file or directory: the parts of its absolute path, and its contents if it is a file. -/
structure Listed where
  parts : List Text
  contents : Option Text

/-- What stands at an absolute path, given by its parts. -/
def placeAt (listed : List Listed) (parts : List Text) : Option Place :=
  match listed.find? fun l => l.parts == parts with
  | some ⟨_, some contents⟩ => some (.file contents)
  | some ⟨_, none⟩ => some .directory
  | none => if listed.any fun l => parts.isPrefixOf l.parts then some .directory else none

def maxPart : Nat := 255

def maxPath : Nat := 4095

/-- Why a path cannot lead anywhere, whatever the disk holds. -/
def refused? (path : Text) : Option FileError :=
  if path.contains 0 then some .invalidPath
  else if path = [] then some .missing
  else if maxPath < path.length then some .nameTooLong
  else none

/-- Walk on from the absolute path whose parts are `start`. -/
def walk (listed : List Listed) (start : List Text) : List Text → Except FileError Place
  | [] =>
      match placeAt listed start with
      | some place => .ok place
      | none => .error .missing
  | part :: rest =>
      match placeAt listed start with
      | none => .error .missing
      | some (.file _) => .error .notADirectory
      | some .directory =>
          if part = [] ∨ part = Path.here then walk listed start rest
          else if part = Path.above then walk listed start.dropLast rest
          else if maxPart < part.length then .error .nameTooLong
          else walk listed (start ++ [part]) rest

/-- A listed path: one that ends in a slash is a directory. -/
def listedAt (workingDirectory : Text) (path contents : Text) : Listed :=
  ⟨Path.cleanParts (Path.absolute workingDirectory path),
    if path.getLast? = some Path.slash then none else some contents⟩

/-- The disk that holds exactly the listed files. -/
def ofFiles (workingDirectory : Text) (files : List (Text × Text)) : Disk Id where
  workingDirectory := workingDirectory
  read path :=
    let home := Path.cleanParts workingDirectory
    let listed := ⟨home, none⟩ :: files.map fun f => listedAt workingDirectory f.1 f.2
    match refused? path with
    | some e => .error e
    | none =>
      let start := if Path.isAbsolute path then [] else home
      match walk listed start (Text.splitAt Path.slash path) with
      | .ok (.file contents) => .ok contents
      | .ok .directory => .error .isADirectory
      | .error e => .error e

end Disk

end LoopScript
