/-
# LoopScript.Text.Base64 — bytes written in 64 characters

Three bytes are written as four characters of six bits each. At the end there may be one byte or two, in
two characters or three, and equality signs fill up the four. The bits that are left over do not count,
and neither do line breaks anywhere.
-/
import LoopScript.Text.Basic

namespace LoopScript.Text.Base64

set_option autoImplicit false

def value? (b : UInt8) : Option Nat :=
  let n := b.toNat
  if 65 ≤ n ∧ n ≤ 90 then some (n - 65)
  else if 97 ≤ n ∧ n ≤ 122 then some (n - 71)
  else if 48 ≤ n ∧ n ≤ 57 then some (n + 4)
  else if n = 43 then some 62
  else if n = 47 then some 63
  else none

def filler : UInt8 := 61

/-- The bytes of characters that hold no line breaks. -/
def decodeLine : Text → Option Text
  | [] => some []
  | a :: b :: c :: d :: rest => do
      let a ← value? a
      let b ← value? b
      let first := (4 * a + b / 16).toUInt8
      if c = filler ∧ d = filler ∧ rest = [] then some [first]
      else
        let c ← value? c
        let second := (b % 16 * 16 + c / 4).toUInt8
        if d = filler ∧ rest = [] then some [first, second]
        else
          let d ← value? d
          let third := (c % 4 * 64 + d).toUInt8
          (decodeLine rest).map fun more => first :: second :: third :: more
  | _ => none

/-- The bytes of a text in base 64, if it is one. -/
def decode (t : Text) : Option Text := decodeLine (t.filter fun b => b != 10 && b != 13)

end LoopScript.Text.Base64
