/-
# LoopScript.Yaml.Timestamp — dates and times

A date is a year of four digits, a month and a day, with minus signs between them. A time may follow it:
hours, minutes and seconds with colons between them, and perhaps a fraction. Behind a `T` or a `t` a time
has a zone, behind spaces it has none. Apart from the year, the numbers may have one digit or two.

Each function takes a part off the front and gives the rest, or `none` if the part is not there.
-/
import LoopScript.Text.Basic

namespace LoopScript.Yaml.Timestamp

set_option autoImplicit false

def byte (b : UInt8) : Text → Option Text
  | c :: rest => if c = b then some rest else none
  | [] => none

/-- A number of one digit or two, and not beyond `most`. -/
def number (most : Nat) (t : Text) : Option (Nat × Text) :=
  let digits := (t.take 2).takeWhile Text.isDigit
  let n := Text.decimalValue digits
  if digits = [] ∨ most < n then none else some (n, t.drop digits.length)

/-- A number of exactly two digits, and not beyond `most`. -/
def twoDigits (most : Nat) (t : Text) : Option Text :=
  if (t.take 2).length = 2 ∧ (t.take 2).all Text.isDigit ∧ Text.decimalValue (t.take 2) ≤ most then
    some (t.drop 2)
  else none

def daysIn (year month : Nat) : Nat :=
  if month = 2 then if year % 4 = 0 ∧ (year % 100 ≠ 0 ∨ year % 400 = 0) then 29 else 28
  else if month = 4 ∨ month = 6 ∨ month = 9 ∨ month = 11 then 30 else 31

def date (t : Text) : Option Text := do
  let year := t.takeWhile Text.isDigit
  if year.length ≠ 4 then none
  else
    let rest ← byte 45 (t.drop 4)
    let (month, rest) ← number 12 rest
    let rest ← byte 45 rest
    let (day, rest) ← number 31 rest
    if 1 ≤ month ∧ 1 ≤ day ∧ day ≤ daysIn (Text.decimalValue year) month then some rest else none

/-- A fraction behind a point or a comma; it may be left out. -/
def fraction (t : Text) : Text :=
  match t with
  | mark :: rest =>
      if (mark = 46 ∨ mark = 44) ∧ rest.head?.any Text.isDigit then rest.dropWhile Text.isDigit else t
  | [] => []

def time (t : Text) : Option Text := do
  let (_, rest) ← number 23 t
  let rest ← byte 58 rest
  let (_, rest) ← number 59 rest
  let rest ← byte 58 rest
  let (_, rest) ← number 59 rest
  some (fraction rest)

/-- A zone: a `Z`, or a sign, hours and minutes. -/
def zone (t : Text) : Option Text :=
  match t with
  | sign :: rest =>
      if sign = 90 then some rest
      else if sign = 43 ∨ sign = 45 then do
        let rest ← twoDigits 24 rest
        let rest ← byte 58 rest
        twoDigits 60 rest
      else none
  | [] => none

/-- Whether a text is a date, or a date and a time. -/
def isTimestamp (t : Text) : Bool :=
  match date t with
  | none => false
  | some [] => true
  | some (mark :: rest) =>
      if mark = 84 ∨ mark = 116 then ((time rest).bind zone) == some []
      else if mark = 32 then time (rest.dropWhile (· == 32)) == some []
      else false

end LoopScript.Yaml.Timestamp
