/-
# LoopScript.Decimal.Binary64 — doubles as exact numbers

A double is a sign and a magnitude `mantissa * 2 ^ exponent`, an infinity, or not a number.
`ofBits` takes the 64 bits apart. `magnitudeBits?` goes the other way: it rounds a quotient of natural
numbers to the nearest double, a tie to the even one, and gives its bits, or nothing if the quotient
is beyond the largest double.
-/

namespace LoopScript

set_option autoImplicit false

/-- What a double stands for. -/
inductive Binary64 where
  | finite (negative : Bool) (mantissa : Nat) (exponent : Int)
  | infinite (negative : Bool)
  | nan
deriving DecidableEq, Repr

namespace Binary64

def leastExponent : Int := -1074

/-- The weight of the sign among the bits of a double, `2 ^ 63`. -/
def signBit : Nat := 9223372036854775808

/-- The leading digit of a mantissa of full length, `2 ^ 52`, which the bits leave out. -/
def hiddenBit : Nat := 4503599627370496

def ofBits (bits : UInt64) : Binary64 :=
  let n := bits.toNat
  let negative := n / signBit == 1
  let biased := n / hiddenBit % 2048
  let fraction := n % hiddenBit
  if biased = 2047 then if fraction = 0 then .infinite negative else .nan
  else if biased = 0 then .finite negative fraction leastExponent
  else .finite negative (hiddenBit + fraction) (leastExponent + (biased - 1 : Nat))

/-- The quotient rounded to the nearest natural number, a tie to the even one. -/
def roundEven (num den : Nat) : Nat :=
  let q := num / den
  let twice := 2 * (num % den)
  if twice < den ∨ (twice = den ∧ q % 2 = 0) then q else q + 1

/-- `num / (den * 2 ^ e)` as a quotient of natural numbers. -/
def scaleDown (num den : Nat) (e : Int) : Nat × Nat :=
  if 0 ≤ e then (num, den * Nat.pow 2 e.toNat) else (num * Nat.pow 2 (-e).toNat, den)

/-- The exponent at which `num / den` has 53 binary digits before the point, but no smaller one than
doubles have. -/
def exponentFor (num den : Nat) : Int :=
  let e := max ((num.log2 : Int) - den.log2 - 53) leastExponent
  let (n, d) := scaleDown num den e
  if 2 * hiddenBit ≤ n / d then e + 1 else e

def infinityBits : Nat := 2047 * hiddenBit

/-- The bits of the double nearest to `num / den`. -/
def magnitudeBits? (num den : Nat) : Option Nat :=
  let e := exponentFor num den
  let (n, d) := scaleDown num den e
  let bits := (e - leastExponent).toNat * hiddenBit + roundEven n d
  if bits < infinityBits then some bits else none

def withSign (negative : Bool) (bits : Nat) : Float :=
  Float.ofBits (UInt64.ofNat (if negative then signBit + bits else bits))

end Binary64

end LoopScript
