/-
# LoopScript.Decimal.Reader — reading numbers

`integer?` reads a signed decimal numeral that fits 64 bits. `double?` reads a floating-point numeral
and rounds it to the nearest double:

* an optional sign, digits with at most one point among them, and an optional exponent;
* a hexadecimal form, `0x` with hexadecimal digits and a binary exponent, which must be there;
* the words `inf` and `infinity` with an optional sign, and `nan` without one, in any case;
* underscores, but only between two digits, the `0x` counting as one.

A numeral beyond the largest double is refused; one below the smallest is zero.
-/
import LoopScript.Decimal.Binary64
import LoopScript.Text.Basic

namespace LoopScript.Decimal

set_option autoImplicit false

/-- An optional sign, and the rest; the flag says whether it was a minus sign. -/
def splitSign : Text → Bool × Text
  | b :: rest => if b = 45 then (true, rest) else if b = 43 then (false, rest) else (false, b :: rest)
  | [] => (false, [])

/-- One more than the largest 64-bit integer, `2 ^ 63`. -/
def integerLimit : Nat := 9223372036854775808

/-- A signed decimal numeral of a 64-bit integer. -/
def integer? (t : Text) : Option Int64 :=
  let (negative, digits) := splitSign t
  if digits = [] ∨ !digits.all Text.isDigit then none
  else
    let n := Text.decimalValue digits
    if negative then if n ≤ integerLimit then some (Int64.ofInt (-n)) else none
    else if n < integerLimit then some (Int64.ofNat n) else none

def underscore : UInt8 := 95

def point : UInt8 := 46

/-- The value of a digit, decimal or hexadecimal. -/
def digitValue (b : UInt8) : Nat :=
  if Text.isDigit b then b.toNat - 48 else if 97 ≤ b then b.toNat - 87 else b.toNat - 55

def isHexDigit (b : UInt8) : Bool :=
  Text.isDigit b || (97 ≤ b && b ≤ 102) || (65 ≤ b && b ≤ 70)

def valueIn (base : Nat) (digits : Text) : Nat :=
  digits.foldl (fun n b => base * n + digitValue b) 0

/-- Whether each underscore stands between two digits; `afterDigit` says whether a digit came
last, `afterUnderscore` whether an underscore did. -/
def underscoresBetween (digit : UInt8 → Bool) : (afterDigit afterUnderscore : Bool) → Text → Bool
  | _, afterUnderscore, [] => !afterUnderscore
  | afterDigit, afterUnderscore, b :: rest =>
      if digit b then underscoresBetween digit true false rest
      else if b = underscore then afterDigit && underscoresBetween digit false true rest
      else !afterUnderscore && underscoresBetween digit false false rest

/-- The parts of a numeral: its digits without the point, how many of them stand behind it, and the
exponent. -/
structure Numeral where
  digits : Text
  places : Nat
  exponent : Int
deriving DecidableEq, Repr

/-- The exponent behind its mark: an optional sign and digits, the first of them no underscore. -/
def exponent? (t : Text) : Option Int :=
  let (negative, digits) := splitSign t
  match digits with
  | [] => none
  | b :: _ =>
      if Text.isDigit b ∧ digits.all fun b => Text.isDigit b || b == underscore then
        let n := Text.decimalValue (digits.filter Text.isDigit)
        some (if negative then -n else n)
      else none

/-- A numeral whose digits satisfy `digit` and whose exponent follows the small letter `mark` or its
capital. -/
def numeral? (digit : UInt8 → Bool) (mark : UInt8) (exponentRequired : Bool) (t : Text) :
    Option Numeral :=
  let inMantissa (b : UInt8) : Bool := digit b || b == underscore || b == point
  let mantissa := t.takeWhile inMantissa
  let whole := (mantissa.takeWhile (· != point)).filter digit
  let fraction := (mantissa.dropWhile (· != point)).filter digit
  let digits := whole ++ fraction
  if digits = [] ∨ 1 < mantissa.count point then none
  else match t.dropWhile inMantissa with
    | [] => if exponentRequired then none else some ⟨digits, fraction.length, 0⟩
    | b :: rest =>
        if b = mark ∨ b = mark - 32 then (exponent? rest).map (⟨digits, fraction.length, ·⟩)
        else none

/-- A number this many binary places away from one is beyond all doubles. -/
def farAway : Int := 5000

/-- The bits of the double nearest to `n * base ^ e`. Numbers far away are settled before the power
is computed: `size` is on the near side of the binary exponent. -/
def scaledBits? (n base : Nat) (e : Int) : Option Nat :=
  let size : Int := n.log2 + base.log2 * e
  if n = 0 ∨ (e < 0 ∧ size < -farAway) then some 0
  else if 0 ≤ e ∧ farAway < size then none
  else if 0 ≤ e then Binary64.magnitudeBits? (n * Nat.pow base e.toNat) 1
  else Binary64.magnitudeBits? n (Nat.pow base (-e).toNat)

/-- The magnitude of an unsigned numeral, as bits. -/
def magnitude? (t : Text) : Option Nat :=
  match t with
  | 48 :: x :: rest =>
      if x = 120 ∨ x = 88 then
        (numeral? isHexDigit 112 true rest).bind fun n =>
          if underscoresBetween isHexDigit true false rest then
            scaledBits? (valueIn 16 n.digits) 2 (n.exponent - 4 * n.places)
          else none
      else decimal t
  | _ => decimal t
where
  decimal (t : Text) : Option Nat :=
    (numeral? Text.isDigit 101 false t).bind fun n =>
      if underscoresBetween Text.isDigit false false t then
        scaledBits? (valueIn 10 n.digits) 10 (n.exponent - n.places)
      else none

def double? (t : Text) : Option Float :=
  let (negative, rest) := splitSign t
  let word := Text.toLower rest
  if word = utf8 "inf" ∨ word = utf8 "infinity" then
    some (Binary64.withSign negative Binary64.infinityBits)
  else if Text.toLower t = utf8 "nan" then some (0.0 / 0.0)
  else (magnitude? rest).map (Binary64.withSign negative)

end LoopScript.Decimal
