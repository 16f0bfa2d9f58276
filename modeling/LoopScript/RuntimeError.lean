/-
# LoopScript.RuntimeError — errors that end a run

A `RuntimeError` is a cause, the place in the script where it arose, and the source line there. Nothing
in the language catches one.

A host asks for three of the four kinds of the language by a `Sentinel`. The sentinels are errors
themselves, with the names of the kinds for messages, but they have none of these kinds.

A function of the host may fail in more ways (`Failure`): with a plain message, with a sentinel, with a
fault, with a run-time error, of a script it ran itself or of its own making, or with a failure that wraps
any of these in a message of its own. `place` turns such a failure into a run-time error at the call: a
run-time error stays as it is, and anything else takes its whole message and the kind of what is found in
it.
-/
import LoopScript.Fault
import LoopScript.Frame
import LoopScript.Tree.Basic

namespace LoopScript

set_option autoImplicit false

/-- What can be written but not run. -/
inductive Unsupported where
  | product
  | boolean
  | negation
  | branch
  | additive (op : Operator)
  | comparison (op : Operator)
  | literal (kind : LiteralKind)
deriving DecidableEq, Repr

def Unsupported.message : Unsupported → Text
  | .product => utf8 "unsupported expression *codescript.MultiplicativeExpr"
  | .boolean => utf8 "unsupported expression *codescript.BooleanExpr"
  | .negation => utf8 "unsupported expression *codescript.NotExpr"
  | .branch => utf8 "unsupported statement *codescript.IfStmt"
  | .additive op => utf8 "unsupported additive operator " ++ op.symbol
  | .comparison op => utf8 "unsupported comparison operator " ++ op.symbol
  | .literal kind => utf8 "unsupported " ++ kind.name ++ utf8 " literal"

inductive Cause where
  | fault (f : Fault)
  | unsupported (u : Unsupported)
  | invalidInteger (text : Text)
  | invalidFloat (text : Text)
  | host (kind : ErrorKind) (message : Text)
deriving DecidableEq, Repr

namespace Cause

def kind : Cause → ErrorKind
  | .fault f => f.kind
  | .unsupported _ => .unsupported
  | .invalidInteger _ => .other
  | .invalidFloat _ => .other
  | .host kind _ => kind

def message : Cause → Text
  | .fault f => f.message
  | .unsupported u => u.message
  | .invalidInteger text => utf8 "invalid integer literal " ++ text
  | .invalidFloat text => utf8 "invalid float literal " ++ text
  | .host _ message => message

end Cause

structure RuntimeError where
  cause : Cause
  pos : Position
  frame : Text
deriving DecidableEq, Repr

namespace RuntimeError

def kind (e : RuntimeError) : ErrorKind := e.cause.kind

def detail (e : RuntimeError) : Text := e.cause.message

/-- The whole text of an error: kind, wording, source line and place. -/
def message (e : RuntimeError) : Text :=
  withFrame (e.kind.label ++ utf8 ": " ++ e.detail) e.frame ++
    (if 0 < e.pos.line then utf8 "\n  at <script> (" ++ e.pos.render ++ utf8 ")" else [])

end RuntimeError

/-- What a host asks for to learn the kind of an error. -/
inductive Sentinel where
  | name
  | type
  | unsupported
deriving DecidableEq, Repr

def Sentinel.kind : Sentinel → ErrorKind
  | .name => .name
  | .type => .type
  | .unsupported => .unsupported

def RuntimeError.is (e : RuntimeError) (s : Sentinel) : Bool := e.kind == s.kind

/-- How a function of the host may fail. A failure that wraps another one has a message of its own. -/
inductive Failure where
  | plain (message : Text)
  | sentinel (s : Sentinel)
  | fault (f : Fault)
  | runtime (e : RuntimeError)
  | wrapped (message : Text) (inner : Failure)
deriving DecidableEq, Repr

namespace Failure

def message : Failure → Text
  | .plain message => message
  | .sentinel s => s.kind.label
  | .fault f => f.message
  | .runtime e => e.message
  | .wrapped message _ => message

def labelled (label : Text) (inner : Failure) : Failure :=
  .wrapped (label ++ utf8 ": " ++ inner.message) inner

/-- The fault that a failure is or wraps. -/
def fault? : Failure → Option Fault
  | .fault f => some f
  | .wrapped _ inner => inner.fault?
  | _ => none

/-- The run-time error that a failure is or wraps. -/
def runtime? : Failure → Option RuntimeError
  | .runtime e => some e
  | .wrapped _ inner => inner.runtime?
  | _ => none

/-- Whether a failure is, or wraps, what is asked for: the sentinel itself, or a run-time error of its kind. A
fault is never found in this way. -/
def is : Failure → Sentinel → Bool
  | .plain _, _ => false
  | .sentinel t, s => t = s
  | .fault _, _ => false
  | .runtime e, s => e.is s
  | .wrapped _ inner, s => inner.is s

/-- The kind of a failure: that of a fault in it, or else that of a run-time error in it. -/
def kind (failure : Failure) : ErrorKind :=
  match failure.fault? with
  | some f => f.kind
  | none =>
      match failure.runtime? with
      | some e => e.kind
      | none => .other

/-- The run-time error a failure becomes at the position `pos`, where the source line is `frame`. -/
def place (pos : Position) (frame : Text) : Failure → RuntimeError
  | .runtime e => e
  | .fault f => ⟨.fault f, pos, frame⟩
  | failure => ⟨.host failure.kind failure.message, pos, frame⟩

end Failure

end LoopScript
