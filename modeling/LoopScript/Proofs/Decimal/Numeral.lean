/-
# LoopScript.Proofs.Decimal.Numeral — digits and the numbers they stand for

The decimal numeral of a number is digits (`isNumeral_ofNat`) that stand for the number
(`decimalValue_ofNat`). Zeros in front change nothing (`decimalValue_zeros`), and there are none in the
numeral that is written, unless it is that of zero (`head?_ofNat`): integers are displayed in the one decimal
form without them (`isDecimalOf_ofInt`).

Digits are read as the integer that they stand for if that is less than `2 ^ 63`, and else refused, however
many there are (`integer?_of_numeral`).
-/
import LoopScript.Eval
import LoopScript.Proofs.Text.Lines
import LoopScript.Proofs.Token.Lexeme
import Mathlib.Data.List.Basic

namespace LoopScript

set_option autoImplicit false

namespace Text

theorem isNumeral_ofNat (n : Nat) : (ofNat n).IsNumeral := by
  refine ⟨fun none => Nat.toDigits_ne_nil (List.map_eq_nil_iff.mp none), fun b member => ?_⟩
  obtain ⟨low, high⟩ := ofNat_digits n b member
  have from48 : (48 : UInt8) ≤ b := UInt8.le_iff_toNat_le.mpr low
  have to57 : b ≤ (57 : UInt8) := UInt8.le_iff_toNat_le.mpr high
  simp [isDigit, from48, to57]

/-- Digits as bytes stand for the same number as the characters. -/
theorem decimalValue_map (cs : List Char) (ascii : ∀ c ∈ cs, c.toNat < 256) :
    decimalValue (cs.map fun c => c.toNat.toUInt8) = Nat.ofDigitChars 10 cs 0 := by
  rw [decimalValue, List.foldl_map, Nat.ofDigitChars]
  refine List.foldl_ext _ _ 0 fun n c member => ?_
  have same : c.toNat.toUInt8.toNat = c.toNat := UInt8.toNat_ofNat_of_lt' (ascii c member)
  rw [same]
  rfl

/-- The numeral of a number stands for that number. -/
@[simp]
theorem decimalValue_ofNat (n : Nat) : decimalValue (ofNat n) = n := by
  have ascii : ∀ c ∈ Nat.toDigits 10 n, c.toNat < 256 :=
    fun c member => Nat.lt_of_le_of_lt (toDigits_bounds member).2 (by decide)
  rw [ofNat, decimalValue_map _ ascii]
  exact Nat.ofDigitChars_ten_toDigits

/-- Zeros in front of digits change nothing. -/
theorem decimalValue_zeros (zeros : Nat) (t : Text) :
    decimalValue (List.replicate zeros 48 ++ t) = decimalValue t := by
  have front : (List.replicate zeros (48 : UInt8)).foldl (fun n b => 10 * n + (b.toNat - 48)) 0 = 0 := by
    induction zeros with
    | zero => rfl
    | succ zeros ih =>
        rw [List.replicate_succ, List.foldl_cons]
        exact ih
  rw [decimalValue, List.foldl_append, front, decimalValue]

theorem IsNumeral.zeros {t : Text} (numeral : t.IsNumeral) (zeros : Nat) :
    IsNumeral (List.replicate zeros 48 ++ t) := by
  obtain ⟨some, digits⟩ := numeral
  refine ⟨fun none => some (List.append_eq_nil_iff.mp none).2, fun b member => ?_⟩
  rcases List.mem_append.mp member with front | inside
  · rw [List.eq_of_mem_replicate front]
    decide
  · exact digits b inside

/-- A numeral that is written begins with a zero only if it is that of zero. -/
theorem head?_ofNat (n : Nat) : (ofNat n).head? = some 48 → ofNat n = [48] := by
  induction n using Nat.strongRecOn with
  | ind n ih =>
      by_cases small : n < 10
      · have table : ∀ m < 10, (ofNat m).head? = some 48 → ofNat m = [48] := by decide +kernel
        exact table n small
      · have split : ofNat n = ofNat (n / 10) ++ [(n % 10).digitChar.toNat.toUInt8] := by
          rw [ofNat, Nat.toDigits_of_base_le (by decide) (Nat.not_lt.mp small), List.map_append]
          rfl
        intro zero
        obtain ⟨b, more, front⟩ := List.exists_cons_of_ne_nil (isNumeral_ofNat (n / 10)).1
        have first : (ofNat (n / 10)).head? = some 48 := by
          rw [split, front] at zero
          rw [front]
          exact zero
        -- Only zero has the numeral that is left, and what is left is not zero.
        have value := decimalValue_ofNat (n / 10)
        rw [ih (n / 10) (by omega) first] at value
        have none : n / 10 = 0 := value.symm
        omega

/-- The decimal form of an integer: a minus sign for negative ones, and then the digits of its magnitude,
without a zero in front. -/
def IsDecimalOf (t : Text) (i : Int) : Prop :=
  ∃ digits, t = (if i < 0 then utf8 "-" else []) ++ digits ∧ digits.IsNumeral ∧
    decimalValue digits = i.natAbs ∧ (digits.head? = some 48 → digits = [48])

/-- Integers are written in decimal form. -/
theorem isDecimalOf_ofInt (i : Int) : (ofInt i).IsDecimalOf i := by
  refine ⟨ofNat i.natAbs, ?_, isNumeral_ofNat _, decimalValue_ofNat _, head?_ofNat _⟩
  rw [ofInt]
  split <;> rfl

end Text

namespace Decimal

theorem splitSign_of_numeral {t : Text} (numeral : t.IsNumeral) : splitSign t = (false, t) := by
  obtain ⟨some, digits⟩ := numeral
  obtain ⟨b, rest, rfl⟩ := List.exists_cons_of_ne_nil some
  have digit := digits b List.mem_cons_self
  have noMinus : b ≠ 45 := by
    rintro rfl
    exact absurd digit (by decide)
  have noPlus : b ≠ 43 := by
    rintro rfl
    exact absurd digit (by decide)
  rw [splitSign, if_neg noMinus, if_neg noPlus]

/-- Digits are read as what they stand for, if it fits. -/
theorem integer?_of_numeral {t : Text} (numeral : t.IsNumeral) :
    integer? t = if Text.decimalValue t < integerLimit then some (Int64.ofNat (Text.decimalValue t))
      else none := by
  have all : t.all Text.isDigit = true := List.all_eq_true.mpr numeral.2
  have read : ¬ (t = [] ∨ (!t.all Text.isDigit) = true) := by
    rw [all]
    simpa using numeral.1
  rw [integer?, splitSign_of_numeral numeral]
  dsimp only
  rw [if_neg read]
  rfl

end Decimal

/-- The value of digits as a literal, or the error of one that is too large. -/
theorem Eval.literal_integer {t : Text} (numeral : t.IsNumeral) :
    Eval.literal .integer t =
      if Text.decimalValue t < Decimal.integerLimit then
        .ok (.int (Int64.ofNat (Text.decimalValue t)))
      else .error (.invalidInteger t) := by
  by_cases small : Text.decimalValue t < Decimal.integerLimit <;>
    simp [Eval.literal, Decimal.integer?_of_numeral numeral, small]

end LoopScript
