/-
# LoopScript.Value.Basic — the values a script computes with

A value is null, a truth value, a 64-bit integer, a double, a text, or a function of the host. Integers
wrap around at 64 bits. A function is known by its identity: two functions are equal only if they are
the same one, whatever their names.

`render` is the text a value displays as, and `inspect` the text tools show it as, which tells a text
from anything else and null from an empty text.
-/
import LoopScript.Decimal.Layout
import LoopScript.Text.Quoted

namespace LoopScript

set_option autoImplicit false

/-- What a function of the host does when it is called; `LoopScript.Host` gives the rules. -/
inductive Action where
  | display
  | count
  | first
  | kind
  | inspect
  | equal
  | fail
  | define
  | lookup
  | call
  | eval
  | wrapLookup
  | wrapEval
deriving DecidableEq, Repr

/-- A function of the host: which one it is, the name it was made under, and what it does. -/
structure Function where
  id : Nat
  name : Text
  action : Action
deriving DecidableEq, Repr

inductive Value where
  | null
  | bool (b : Bool)
  | int (i : Int64)
  | float (x : Float)
  | text (t : Text)
  | function (f : Function)

instance : Inhabited Value := ⟨.null⟩

inductive ValueKind where
  | null
  | bool
  | int
  | float
  | text
  | function
deriving DecidableEq, Repr

def ValueKind.name : ValueKind → Text
  | .null => utf8 "null"
  | .bool => utf8 "bool"
  | .int => utf8 "int"
  | .float => utf8 "float"
  | .text => utf8 "string"
  | .function => utf8 "function"

namespace Value

def kind : Value → ValueKind
  | .null => .null
  | .bool _ => .bool
  | .int _ => .int
  | .float _ => .float
  | .text _ => .text
  | .function _ => .function

/-- Doubles are written positionally from `10 ^ -6` up to `10 ^ 21`. -/
def floatLayout : Decimal.Layout := ⟨-6, 21⟩

def renderFloat (x : Float) : Text := floatLayout.render (Binary64.ofBits x.toBits)

/-- The text a value displays as; null displays as nothing. -/
def render : Value → Text
  | .null => []
  | .bool b => if b then utf8 "true" else utf8 "false"
  | .int i => Text.ofInt i.toInt
  | .float x => renderFloat x
  | .text t => t
  | .function f => utf8 "<builtin " ++ f.name ++ utf8 ">"

/-- The text a tool shows a value as. -/
def inspect : Value → Text
  | .null => utf8 "null"
  | .text t => Text.quote t
  | v => v.render

/-- Whether two values are of one kind and hold the same. -/
def equal : Value → Value → Bool
  | .null, .null => true
  | .bool a, .bool b => a == b
  | .int a, .int b => a == b
  | .float a, .float b => a == b
  | .text a, .text b => a == b
  | .function f, .function g => f.id == g.id
  | _, _ => false

/-! ## What a host reads off a value -/

/-- The truth value a value holds; false if it holds none. -/
def toBool : Value → Bool
  | .bool b => b
  | _ => false

/-- The integer a value holds; zero if it holds none. -/
def toInt : Value → Int64
  | .int i => i
  | _ => 0

/-- The number a value holds, as a double; zero if it holds none. -/
def toFloat : Value → Float
  | .float x => x
  | .int i => i.toFloat
  | _ => 0

def function? : Value → Option Function
  | .function f => some f
  | _ => none

end Value

end LoopScript
