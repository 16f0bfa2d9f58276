/-
# LoopScript.Value.Arithmetic — the operations on values

Two integers add, subtract and compare as 64-bit integers, wrapping around. If one of two numbers is a
double, both are taken as doubles. A text on either side of an addition, and of a subtraction too,
joins the two displayed texts. Everything else is a fault.
-/
import LoopScript.Fault

namespace LoopScript.Value

set_option autoImplicit false

/-- The two numbers as doubles, if both values are numbers. -/
def asDoubles? (left right : Value) : Option (Float × Float) :=
  match left, right with
  | .int _, .int _ | .int _, .float _ | .float _, .int _ | .float _, .float _ =>
      some (left.toFloat, right.toFloat)
  | _, _ => none

/-- The two displayed texts joined, if one of the values is a text. -/
def joined? (left right : Value) : Option Value :=
  if left.kind = .text ∨ right.kind = .text then some (.text (left.render ++ right.render)) else none

/-- Add, or join if there is a text. -/
def add (left right : Value) : Except Fault Value :=
  match left, right with
  | .int a, .int b => .ok (.int (a + b))
  | _, _ =>
      match asDoubles? left right, joined? left right with
      | some (x, y), _ => .ok (.float (x + y))
      | none, some v => .ok v
      | none, none => .error (.cannotAdd left.kind right.kind)

/-- Subtract, or join if there is a text. -/
def subtract (left right : Value) : Except Fault Value :=
  match left, right with
  | .int a, .int b => .ok (.int (a - b))
  | _, _ =>
      match asDoubles? left right, joined? left right with
      | some (x, y), _ => .ok (.float (x - y))
      | none, some v => .ok v
      | none, none => .error (.cannotSubtract left.kind right.kind)

/-- Whether the left number is less than the right one. -/
def less (left right : Value) : Except Fault Value :=
  match left, right with
  | .int a, .int b => .ok (.bool (a < b))
  | _, _ =>
      match asDoubles? left right with
      | some (x, y) => .ok (.bool (x < y))
      | none => .error (.cannotCompare left.kind right.kind)

/-- Whether a value is true; only a truth value can be asked. -/
def isTrue : Value → Except Fault Bool
  | .bool b => .ok b
  | _ => .error .notABoolean

/-- Whether a value is false; only a truth value can be asked. -/
def isFalse (v : Value) : Except Fault Bool := v.isTrue.map not

end LoopScript.Value
