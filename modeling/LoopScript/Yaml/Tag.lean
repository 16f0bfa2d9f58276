/-
# LoopScript.Yaml.Tag — what scalars are

A `Tag` says what a node is. It may be written before a node; if it is not, a plain scalar is what its
text says (`Tag.ofPlain`): null, a truth value, a number, a timestamp, or else a string.
-/
import LoopScript.Decimal.Reader
import LoopScript.Yaml.Timestamp

namespace LoopScript.Yaml

set_option autoImplicit false

/-- What a node is: one of the kinds that everyone knows, or a kind of someone's own, which has a name. -/
inductive Tag where
  | null
  | bool
  | int
  | float
  | timestamp
  | string
  | binary
  | merge
  | sequence
  | mapping
  | other (name : Text)
deriving DecidableEq, Repr

namespace Tag

def name : Tag → Text
  | .null => utf8 "!!null"
  | .bool => utf8 "!!bool"
  | .int => utf8 "!!int"
  | .float => utf8 "!!float"
  | .timestamp => utf8 "!!timestamp"
  | .string => utf8 "!!str"
  | .binary => utf8 "!!binary"
  | .merge => utf8 "!!merge"
  | .sequence => utf8 "!!seq"
  | .mapping => utf8 "!!map"
  | .other name => name

def known : List Tag :=
  [.null, .bool, .int, .float, .timestamp, .string, .binary, .merge, .sequence, .mapping]

/-- What the names of the known tags begin with, in full. -/
def knownBase : Text := utf8 "tag:yaml.org,2002:"

/-- A name in its short form. -/
def shortName (name : Text) : Text :=
  if name.startsWith knownBase then utf8 "!!" ++ name.drop knownBase.length else name

def ofName (name : Text) : Tag :=
  (known.find? fun tag => tag.name == shortName name).getD (.other (shortName name))

theorem ofName_name : ∀ tag ∈ known, ofName tag.name = tag := by decide

/-! ## Plain scalars -/

def nulls : List Text := [[], utf8 "~", utf8 "null", utf8 "Null", utf8 "NULL"]

def bools : List Text :=
  [utf8 "true", utf8 "True", utf8 "TRUE", utf8 "false", utf8 "False", utf8 "FALSE"]

/-- The plain scalars for infinities and for what is not a number. -/
def specialFloats : List Text :=
  [utf8 ".nan", utf8 ".NaN", utf8 ".NAN", utf8 ".inf", utf8 ".Inf", utf8 ".INF", utf8 "+.inf",
    utf8 "+.Inf", utf8 "+.INF", utf8 "-.inf", utf8 "-.Inf", utf8 "-.INF"]

/-- The digits of a whole number without its sign, and their base: two behind `0b`, eight behind `0o`
or a leading zero, sixteen behind `0x`, else ten. -/
def baseOf (t : Text) : Nat × Text :=
  match t with
  | 48 :: mark :: rest =>
      if mark = 120 ∨ mark = 88 then (16, rest)
      else if mark = 98 ∨ mark = 66 then (2, rest)
      else if mark = 111 ∨ mark = 79 then (8, rest)
      else (8, mark :: rest)
  | t => (10, t)

def isDigitOf (base : Nat) (b : UInt8) : Bool :=
  Decimal.isHexDigit b && Decimal.digitValue b < base

/-- The value of digits in a base; there must be some. -/
def digits? (base : Nat) (t : Text) : Option Nat :=
  if t ≠ [] ∧ t.all (isDigitOf base) then some (Decimal.valueIn base t) else none

def isSigned (t : Text) : Bool := t.head? == some 43 || t.head? == some 45

/-- A whole number of 64 bits, whose digits are read by `digits`. Only a number without a sign may use
the bit of the sign. -/
def whole? (digits : Text → Option Nat) (t : Text) : Option Int :=
  let (negative, unsigned) := Decimal.splitSign t
  (digits unsigned).bind fun n =>
    if negative then if n ≤ Decimal.integerLimit then some (-n) else none
    else if n < (if isSigned t then 1 else 2) * Decimal.integerLimit then some n
    else none

/-- The value of a whole number. A sign may also stand between a small `0b` or `0o` and the digits. -/
def int? (t : Text) : Option Int :=
  (whole? (fun u => let (base, digits) := baseOf u; digits? base digits) t).or
    (match t with
      | 48 :: 98 :: rest => if isSigned rest then whole? (digits? 2) rest else none
      | 48 :: 111 :: rest => if isSigned rest then whole? (digits? 8) rest else none
      | _ => none)

/-- Whether a text is a decimal number: digits, perhaps a point, perhaps an exponent. -/
def isFloat (t : Text) : Bool :=
  let (_, unsigned) := Decimal.splitSign t
  match Decimal.numeral? Text.isDigit 101 false unsigned with
  | some _ => !t.contains Decimal.underscore && (Decimal.double? t).isSome
  | none => false

/-- A text without its underscores, which do not count in numbers. -/
def bare (t : Text) : Text := t.filter (· != Decimal.underscore)

/-- What a plain scalar is; timestamps are told apart from strings only if `times` says so. -/
def ofPlain (times : Bool) (t : Text) : Tag :=
  if nulls.contains t then .null
  else if bools.contains t then .bool
  else if specialFloats.contains t then .float
  else if t.head? = some Decimal.point then if (Decimal.double? t).isSome then .float else .string
  else if t.head?.any Text.isDigit ∨ isSigned t then
    if times ∧ Timestamp.isTimestamp t then .timestamp
    else if (int? (bare t)).isSome then .int
    else if isFloat (bare t) then .float
    else .string
  else .string

/-- What a scalar with a tag turns out to be. A whole number of 63 bits is a float too. -/
def found (tag : Tag) (t : Text) : Tag :=
  match ofPlain (tag = .timestamp) t with
  | .int =>
      if tag = .float ∧ (int? (bare t)).any (· < (Decimal.integerLimit : Int)) then .float else .int
  | kind => kind

end Tag

end LoopScript.Yaml
