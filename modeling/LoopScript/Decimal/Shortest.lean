/-
# LoopScript.Decimal.Shortest — the shortest decimal that reads back

Every decimal near a double reads back as that double: those between the midpoints to its two
neighbours, the midpoints themselves included when the mantissa is even. Of these `shortest` takes one
with the fewest digits, and of several such the nearest to the double, a tie going to the even digit.

A decimal with few digits lies on a coarse grid of multiples of a power of ten. So the search walks
from a grid coarser than the double down to finer ones and stops at the first that has a point in the
interval; only the two grid points around the double need to be looked at.
-/
import LoopScript.Decimal.Binary64

namespace LoopScript.Decimal

set_option autoImplicit false

/-- The number `digits * 10 ^ scale`. -/
structure Scaled where
  digits : Nat
  scale : Int
deriving DecidableEq, Repr

/-- The interval of numbers that read back as a double, in units of `2 ^ exponent`. -/
structure Interval where
  low : Nat
  value : Nat
  high : Nat
  closed : Bool
  exponent : Int
deriving DecidableEq, Repr

/-- The interval of the double `mantissa * 2 ^ exponent`. Below a power of two doubles lie twice as
close, so there the lower half is half as wide. -/
def intervalOf (mantissa : Nat) (exponent : Int) : Interval :=
  let narrow := mantissa = Binary64.hiddenBit ∧ Binary64.leastExponent < exponent
  ⟨4 * mantissa - (if narrow then 1 else 2), 4 * mantissa, 4 * mantissa + 2, mantissa % 2 == 0,
    exponent - 2⟩

/-- `base ^ e` for `0 ≤ e`, else one. -/
def powerUp (base : Nat) (e : Int) : Nat := Nat.pow base e.toNat

/-- How many of its units the grid of multiples of `10 ^ scale` has in one step, both scaled so that
they are natural numbers. -/
def gridUnit (i : Interval) (scale : Int) : Nat := powerUp 10 scale * powerUp 2 (-i.exponent)

/-- What an end of the interval is multiplied by to be measured in the units of `gridUnit`. -/
def gridFactor (i : Interval) (scale : Int) : Nat := powerUp 2 i.exponent * powerUp 10 (-scale)

/-- The better of the two grid points around the double on the grid of multiples of
`10 ^ scale`, if one of them lies in the interval. -/
def onGrid? (i : Interval) (scale : Int) : Option Nat :=
  let unit := gridUnit i scale
  let factor := gridFactor i scale
  let low := i.low * factor
  let value := i.value * factor
  let high := i.high * factor
  let inside (c : Nat) : Bool :=
    0 < c && (if i.closed then low ≤ c * unit && c * unit ≤ high
      else low < c * unit && c * unit < high)
  let below := value / unit
  let twice := 2 * (value % unit)
  let preferBelow := twice < unit || (twice == unit && below % 2 == 0)
  match inside below, inside (below + 1) with
  | true, true => some (if preferBelow then below else below + 1)
  | true, false => some below
  | false, true => some (below + 1)
  | false, false => none

/-- Walk from the grid of `10 ^ scale` to finer ones; after the last step the nearest point is taken
as it is. -/
def searchFrom (i : Interval) : Nat → Int → Scaled
  | 0, scale => ⟨Binary64.roundEven (i.value * gridFactor i scale) (gridUnit i scale), scale⟩
  | steps + 1, scale =>
      match onGrid? i scale with
      | some digits => ⟨digits, scale⟩
      | none => searchFrom i steps (scale - 1)

/-- A power of ten above the double `mantissa * 2 ^ exponent`. -/
def coarseScale (mantissa : Nat) (exponent : Int) : Int :=
  ((mantissa.log2 : Int) + 1 + exponent) * 30103 / 100000 + 1

/-- The shortest decimal that reads back as the double `mantissa * 2 ^ exponent`, which is not
zero. -/
def shortest (mantissa : Nat) (exponent : Int) : Scaled :=
  searchFrom (intervalOf mantissa exponent) 24 (coarseScale mantissa exponent)

end LoopScript.Decimal
