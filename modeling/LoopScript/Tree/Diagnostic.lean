/-
# LoopScript.Tree.Diagnostic — why a source is not a program

Reading a program fails at a token, or at the end of the source: the token may be one that begins
nothing (`unexpected`), or stand where another was called for (`expected`). A `Diagnostic` holds that
cause and its place; `message` words it, and `render` adds the place and the source line.
-/
import LoopScript.Frame
import LoopScript.Token.Basic

namespace LoopScript

set_option autoImplicit false

/-- What was called for where something else was found. -/
inductive Expectation where
  | closeParen
  | openBrace
  | closeBrace
  | assignOrCall
  | elseBranch
deriving DecidableEq, Repr

def Expectation.label : Expectation → Text
  | .closeParen => utf8 "')'"
  | .openBrace => utf8 "'\x7b'"
  | .closeBrace => utf8 "'\x7d'"
  | .assignOrCall => utf8 "'=' or '(' after identifier"
  | .elseBranch => utf8 "block or 'if' after 'else'"

/-- Why reading failed. The token found is absent at the end of the source. -/
inductive Diagnostic.Cause where
  | unexpected (found : Option Token)
  | expected (what : Expectation) (found : Option Token)
deriving DecidableEq, Repr

structure Diagnostic where
  pos : Position
  cause : Diagnostic.Cause
deriving DecidableEq, Repr

namespace Diagnostic

def describe : Option Token → Text
  | some t => t.describe
  | none => utf8 "end of input"

def message (d : Diagnostic) : Text :=
  match d.cause with
  | .unexpected found => utf8 "unexpected token " ++ describe found
  | .expected what found => utf8 "expected " ++ what.label ++ utf8 ", got " ++ describe found

/-- The wording with its place and the source line. -/
def render (source : Text) (d : Diagnostic) : Text :=
  withFrame (utf8 "parse error at " ++ d.pos.render ++ utf8 ": " ++ d.message)
    (codeFrame source d.pos)

/-- Several diagnostics, a blank line between them. -/
def renderAll (source : Text) (ds : List Diagnostic) : Text :=
  Text.joinWith (utf8 "\n\n") (ds.map (render source))

end Diagnostic

end LoopScript
