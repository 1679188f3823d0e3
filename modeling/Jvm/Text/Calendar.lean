import Jvm.Text.Decimal

/-!
# Dates and times as text

The pieces from which the formats compose their dates: numbers of one or two digits, calendar dates,
times of day and time zones. A piece gives back the text that follows it.
-/

namespace Jvm.Text.Calendar

/-- One or two digits, or exactly two when `fixed`, and the rest. -/
def pair? (fixed : Bool) : List Char → Option (Nat × List Char)
  | a :: b :: rest =>
    if !a.isDigit then none
    else if b.isDigit then some (Decimal.number [a, b], rest)
    else if fixed then none
    else some (Decimal.number [a], b :: rest)
  | [a] => if !fixed && a.isDigit then some (Decimal.number [a], []) else none
  | [] => none

def after? (c : Char) : List Char → Option (List Char)
  | d :: rest => if c = d then some rest else none
  | [] => none

def daysIn (year month : Nat) : Nat :=
  if month = 2 then
    if year % 4 = 0 && (year % 100 ≠ 0 || year % 400 = 0) then 29 else 28
  else if month = 4 || month = 6 || month = 9 || month = 11 then 30
  else 31

/-- A day that exists, with four digits of year, and what follows it. -/
def date? (fixed : Bool) (cs : List Char) : Option (List Char) := do
  let year := cs.takeWhile Char.isDigit
  if year.length ≠ 4 then none
  else
    let rest ← after? '-' (cs.dropWhile Char.isDigit)
    let (month, rest) ← pair? fixed rest
    let rest ← after? '-' rest
    let (day, rest) ← pair? fixed rest
    if 1 ≤ month && month ≤ 12 && 1 ≤ day && day ≤ daysIn (Decimal.number year) month then
      some rest
    else none

/-- What follows an optional fraction of a second. -/
def dropFraction : List Char → List Char
  | point :: d :: rest =>
    if (point = '.' || point = ',') && d.isDigit then rest.dropWhile Char.isDigit
    else point :: d :: rest
  | cs => cs

/-- A time of day and what follows it. Without seconds, where they are `optional`, there is no
fraction. -/
def time? (fixed optional : Bool) (cs : List Char) : Option (List Char) := do
  let (hour, rest) ← pair? fixed cs
  let rest ← after? ':' rest
  let (minute, rest) ← pair? fixed rest
  if 24 ≤ hour || 60 ≤ minute then none
  else match after? ':' rest with
    | some more =>
      let (second, rest) ← pair? fixed more
      if 60 ≤ second then none else some (dropFraction rest)
    | none => if optional then some rest else none

/-- Whether a text is a time zone: `Z`, or hours and minutes east or west. -/
def isZone : List Char → Bool
  | ['Z'] => true
  | [sign, a, b, ':', c, d] =>
    (sign = '+' || sign = '-') && [a, b, c, d].all Char.isDigit &&
      Decimal.number [a, b] ≤ 24 && Decimal.number [c, d] ≤ 60
  | _ => false

end Jvm.Text.Calendar
