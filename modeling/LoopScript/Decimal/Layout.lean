/-
# LoopScript.Decimal.Layout — how a double is written

A double is written with the digits of its shortest decimal. A `Layout` says for which sizes they are
written positionally; outside that range they are written with one digit before the point and an
exponent that has a sign and at least two digits.
-/
import LoopScript.Decimal.Shortest
import LoopScript.Text.Basic

namespace LoopScript.Decimal

set_option autoImplicit false

/-- Positional from `10 ^ least` up to, but not including, `10 ^ limit`. -/
structure Layout where
  least : Int
  limit : Int
deriving DecidableEq, Repr

/-- Digits without an exponent: `point` of them stand before the point. -/
def positional (digits : Text) (point : Int) : Text :=
  let zero : UInt8 := 48
  if point ≤ 0 then
    utf8 "0." ++ List.replicate (-point).toNat zero ++ digits
  else if (digits.length : Int) ≤ point then
    digits ++ List.replicate (point.toNat - digits.length) zero
  else digits.take point.toNat ++ utf8 "." ++ digits.drop point.toNat

/-- Digits with an exponent: one digit stands before the point. -/
def scientific (digits : Text) (exponent : Int) : Text :=
  let fraction := digits.drop 1
  let size := Text.ofNat exponent.natAbs
  digits.take 1 ++ (if fraction = [] then [] else utf8 "." ++ fraction) ++
    (if exponent < 0 then utf8 "e-" else utf8 "e+") ++
    (if size.length < 2 then utf8 "0" ++ size else size)

def Layout.magnitude (l : Layout) (mantissa : Nat) (exponent : Int) : Text :=
  if mantissa = 0 then utf8 "0"
  else
    let d := shortest mantissa exponent
    let digits := Text.ofNat d.digits
    let leading := d.scale + digits.length - 1
    if l.least ≤ leading ∧ leading < l.limit then positional digits (leading + 1)
    else scientific digits leading

def Layout.render (l : Layout) : Binary64 → Text
  | .nan => utf8 "NaN"
  | .infinite true => utf8 "-Inf"
  | .infinite false => utf8 "+Inf"
  | .finite negative mantissa exponent =>
      (if negative then utf8 "-" else []) ++ l.magnitude mantissa exponent

end LoopScript.Decimal
