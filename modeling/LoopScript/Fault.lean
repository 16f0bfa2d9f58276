/-
# LoopScript.Fault — what can go wrong with names and values

A `Fault` is a failure of the environment or of an operation on values, before anything is known about
where in a script it happened. Hosts tell run-time errors apart by their `ErrorKind`. The language has four
kinds; a function of the host may end a run in an error of a kind of its own.
-/
import LoopScript.Operator
import LoopScript.Value.Basic

namespace LoopScript

set_option autoImplicit false

/-- The kind of a run-time error, which is no more than what it is called. -/
structure ErrorKind where
  label : Text
deriving DecidableEq, Repr

namespace ErrorKind

def name : ErrorKind := ⟨utf8 "NameError"⟩

def type : ErrorKind := ⟨utf8 "TypeError"⟩

def unsupported : ErrorKind := ⟨utf8 "UnsupportedOperation"⟩

/-- The kind of all errors that have no kind of their own. -/
def other : ErrorKind := ⟨utf8 "RuntimeError"⟩

def native : List ErrorKind := [name, type, unsupported, other]

end ErrorKind

inductive Fault where
  | unboundVariable (name : Text)
  | unboundFunction (name : Text)
  | notAFunction (name : Text)
  | cannotAdd (left right : ValueKind)
  | cannotSubtract (left right : ValueKind)
  | cannotCompare (left right : ValueKind)
  | notABoolean
deriving DecidableEq, Repr

namespace Fault

def kind : Fault → ErrorKind
  | .unboundVariable _ => .name
  | .unboundFunction _ => .name
  | _ => .type

theorem kind_eq (f : Fault) : f.kind = .name ∨ f.kind = .type := by
  cases f with
  | unboundVariable | unboundFunction => exact .inl rfl
  | notAFunction | cannotAdd | cannotSubtract | cannotCompare | notABoolean => exact .inr rfl

/-- The kinds of two operands that do not go together. -/
def operands (left right : ValueKind) : Text :=
  utf8 " values of types " ++ left.name ++ utf8 " and " ++ right.name

def message : Fault → Text
  | .unboundVariable name => utf8 "variable " ++ name ++ utf8 " is not defined"
  | .unboundFunction name => utf8 "function " ++ name ++ utf8 " is not defined"
  | .notAFunction name => utf8 "variable " ++ name ++ utf8 " is not a function"
  | .cannotAdd left right => utf8 "cannot add" ++ operands left right
  | .cannotSubtract left right => utf8 "cannot subtract" ++ operands left right
  | .cannotCompare left right => utf8 "cannot compare" ++ operands left right
  | .notABoolean => utf8 "value is not a boolean"

end Fault

end LoopScript
