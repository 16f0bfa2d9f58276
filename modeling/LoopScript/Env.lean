/-
# LoopScript.Env — the one namespace of a run

Variables and functions share one flat namespace, a table of values. Reading a name that is not bound
is a fault, and so is calling one that is bound to something other than a function.
-/
import LoopScript.Fault
import LoopScript.Table

namespace LoopScript

set_option autoImplicit false

abbrev Env := Table Value

namespace Env

def lookup (env : Env) (name : Text) : Except Fault Value :=
  match env.get? name with
  | some v => .ok v
  | none => .error (.unboundVariable name)

def lookupFunction (env : Env) (name : Text) : Except Fault Function :=
  match env.get? name with
  | some (.function f) => .ok f
  | some _ => .error (.notAFunction name)
  | none => .error (.unboundFunction name)

end Env

end LoopScript
