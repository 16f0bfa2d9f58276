/-
# LoopScript.Operator — the binary operators and how tightly they bind

The operators form four levels, from the loosest to the tightest: boolean, comparison, additive,
multiplicative. All of them group to the left. A host that builds trees by hand may use any text for
an operator; such a text is `other` and belongs to no level.

`symbol` is the name an operator goes by in trees and messages (the words are in capitals there),
and `ofSymbol` finds the operator again (`symbol_ofSymbol`).
-/
import LoopScript.Text.Basic

namespace LoopScript

set_option autoImplicit false

/-- The four classes of binary operators. -/
inductive Level where
  | boolean
  | comparison
  | additive
  | multiplicative
deriving DecidableEq, Repr

/-- How tightly a level binds; zero is left for "no operator yet". -/
def Level.rank : Level → Nat
  | .boolean => 1
  | .comparison => 2
  | .additive => 3
  | .multiplicative => 4

inductive Operator where
  | add
  | join
  | sub
  | mul
  | div
  | rem
  | eq
  | ne
  | lt
  | le
  | gt
  | ge
  | and
  | or
  | xor
  | other (symbol : Text)
deriving DecidableEq, Repr

namespace Operator

def symbol : Operator → Text
  | .add => utf8 "+"
  | .join => utf8 "&"
  | .sub => utf8 "-"
  | .mul => utf8 "*"
  | .div => utf8 "/"
  | .rem => utf8 "%"
  | .eq => utf8 "=="
  | .ne => utf8 "!="
  | .lt => utf8 "<"
  | .le => utf8 "<="
  | .gt => utf8 ">"
  | .ge => utf8 ">="
  | .and => utf8 "AND"
  | .or => utf8 "OR"
  | .xor => utf8 "XOR"
  | .other s => s

def all : List Operator :=
  [.add, .join, .sub, .mul, .div, .rem, .eq, .ne, .lt, .le, .gt, .ge, .and, .or, .xor]

/-- The operator that goes by the name `s`. -/
def ofSymbol (s : Text) : Operator :=
  (all.find? fun op => op.symbol == s).getD (.other s)

/-- The class an operator belongs to; `other` belongs to none. -/
def level? : Operator → Option Level
  | .add | .join | .sub => some .additive
  | .mul | .div | .rem => some .multiplicative
  | .eq | .ne | .lt | .le | .gt | .ge => some .comparison
  | .and | .or | .xor => some .boolean
  | .other _ => none

def spelling (op : Operator) : Text := Text.toLower op.symbol

theorem symbol_ofSymbol (s : Text) : (ofSymbol s).symbol = s := by
  unfold ofSymbol
  cases h : all.find? fun op => op.symbol == s with
  | none => rfl
  | some op => simpa using List.find?_some h

end Operator

end LoopScript
