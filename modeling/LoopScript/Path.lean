/-
# LoopScript.Path — slash-separated paths

Paths are taken as texts: no file is looked at. `clean` gives the shortest path that means the same:
single slashes, no `.`, and a `..` only at the beginning of a relative path. `join` puts one path under
another, `directory` drops the last part, and `absolute` resolves a path against a directory.
-/
import LoopScript.Text.Basic

namespace LoopScript.Path

set_option autoImplicit false

def slash : UInt8 := 47

def here : Text := utf8 "."

def above : Text := utf8 ".."

def isAbsolute (path : Text) : Bool := path.head? == some slash

/-- Take one more part onto a path whose parts are given last first. -/
def pushPart (rooted : Bool) (parts : List Text) (part : Text) : List Text :=
  if part = [] ∨ part = here then parts
  else if part = above then
    match parts with
    | last :: before => if last = above then above :: parts else before
    | [] => if rooted then [] else [above]
  else part :: parts

def cleanParts (path : Text) : List Text :=
  ((Text.splitAt slash path).foldl (pushPart (isAbsolute path)) []).reverse

/-- The shortest path that means the same. -/
def clean (path : Text) : Text :=
  let joined := Text.joinWith [slash] (cleanParts path)
  if isAbsolute path then slash :: joined else if joined = [] then here else joined

/-- One path under another; an empty one does not count. -/
def join (first second : Text) : Text :=
  match first, second with
  | [], [] => []
  | [], second => clean second
  | first, [] => clean first
  | first, second => clean (first ++ [slash] ++ second)

def directory (path : Text) : Text :=
  clean (path.reverse.dropWhile (· != slash)).reverse

/-- A path resolved against the directory `base`. -/
def absolute (base path : Text) : Text := if isAbsolute path then clean path else join base path

end LoopScript.Path
