import Jvm.Float.Binary

/-!
# Shortest decimal text

A floating-point number is written with the fewest significant digits that still read back as the
same number of its format; of two such decimals the nearer one is taken, and an exact tie goes to
the even digit. `Style` holds what is left to decide: where positional notation ends and how an
exponent is written.
-/

namespace Jvm.Float

/-- The decimal `0.d₁d₂…·10 ^ (exponent + 1)`: significant digits, the first of them in the
place `10 ^ exponent`. -/
structure Decimal where
  digits : List Nat
  exponent : Int
  deriving Repr, DecidableEq

/-- The largest `x` with `10 ^ x ≤ n / d`, for a positive quotient. -/
def decimalExponent (n d : Nat) : Int :=
  if d ≤ n then ((Nat.toDigits 10 (n / d)).length : Int) - 1
  else
    let reciprocal := (d + n - 1) / n
    Int.negOfNat (Nat.toDigits 10 (reciprocal - 1)).length

/-- The numbers that read back as one floating-point number: an interval around it, all three
points over the denominator `den`, with the ends included or not. -/
structure Interval where
  low : Nat
  value : Nat
  high : Nat
  den : Nat
  closed : Bool
  deriving Repr

/-- The reals that round to `mantissa · 2 ^ exponent`. The gap below a power of two is half as wide
as the one above it, except at the bottom of the range. -/
def roundingInterval (f : Format) (mantissa : Nat) (exponent : Int) : Interval :=
  let narrowBelow := mantissa = Nat.pow 2 f.fractionBits ∧ f.minExponent < exponent
  let scale := Nat.pow 2 (exponent - 2).toNat
  { low := (4 * mantissa - if narrowBelow then 1 else 2) * scale
    value := 4 * mantissa * scale
    high := (4 * mantissa + 2) * scale
    den := Nat.pow 2 (2 - exponent).toNat
    closed := mantissa % 2 = 0 }

/-- Whether the decimal `q · 10 ^ place` lies in the interval. -/
def Interval.contains (i : Interval) (q : Nat) (place : Int) : Bool :=
  let point := q * i.den * Nat.pow 10 place.toNat
  let unit := Nat.pow 10 (-place).toNat
  if i.closed then i.low * unit ≤ point && point ≤ i.high * unit
  else i.low * unit < point && point < i.high * unit

/-- The decimal with its last digit in `10 ^ place` that lies in the interval and is nearest to the
value. -/
def Interval.nearestOn? (i : Interval) (place : Int) : Option Nat :=
  let n := i.value * Nat.pow 10 (-place).toNat
  let d := i.den * Nat.pow 10 place.toNat
  let below := n / d
  let above := below + 1
  match i.contains below place, i.contains above place with
  | true, true => some (roundHalfEven n d)
  | true, false => some below
  | false, true => some above
  | false, false => none

/-- The first place, from `place` downwards, on which a decimal lies in the interval. -/
def Interval.search (i : Interval) : Nat → Int → Nat × Int
  | 0, place => (i.value / i.den, place)
  | fuel + 1, place =>
    match i.nearestOn? place with
    | some q => (q, place)
    | none => i.search fuel (place - 1)

/-- The digits of a number without its trailing zeros. -/
def significantDigits (n : Nat) : List Nat :=
  ((Nat.toDigits 10 n).map fun c => c.toNat - '0'.toNat).reverse.dropWhile (· = 0) |>.reverse

/-- The shortest decimal that reads back as the positive number `mantissa · 2 ^ exponent`. -/
def shortest (f : Format) (mantissa : Nat) (exponent : Int) : Decimal :=
  let i := roundingInterval f mantissa exponent
  let (q, place) := i.search 18 (decimalExponent i.value i.den)
  { digits := significantDigits q
    exponent := place + (Nat.toDigits 10 q).length - 1 }

/-- How a decimal is written: positional for exponents from `minPositional` up to and without
`endPositional`, otherwise with an exponent of at least `exponentDigits` digits and its sign. -/
structure Style where
  minPositional : Int
  endPositional : Int
  exponentDigits : Nat
  nan : String
  infinity : String
  negativeInfinity : String
  deriving Repr

/-- The general style: plain from `0.0001` up to six digits before the point. -/
def Style.general : Style where
  minPositional := -4
  endPositional := 6
  exponentDigits := 2
  nan := "NaN"
  infinity := "+Inf"
  negativeInfinity := "-Inf"

def digitText (digits : List Nat) : String := String.ofList (digits.map Nat.digitChar)

/-- One digit, the others after a point, and the exponent with its sign. -/
def Style.scientific (s : Style) (d : Decimal) : String :=
  let mantissa := match d.digits with
    | [] => "0"
    | [x] => digitText [x]
    | x :: rest => digitText [x] ++ "." ++ digitText rest
  let magnitude := toString d.exponent.natAbs
  let padding := String.ofList (List.replicate (s.exponentDigits - magnitude.length) '0')
  mantissa ++ "e" ++ (if d.exponent < 0 then "-" else "+") ++ padding ++ magnitude

/-- Digits around a decimal point, filled with zeros up to it. -/
def positional (d : Decimal) : String :=
  if d.exponent < 0 then
    "0." ++ digitText (List.replicate (-d.exponent - 1).toNat 0 ++ d.digits)
  else
    let whole := d.exponent.toNat + 1
    let padded := d.digits ++ List.replicate (whole - d.digits.length) 0
    let fraction := padded.drop whole
    digitText (padded.take whole) ++ if fraction.isEmpty then "" else "." ++ digitText fraction

def Style.render (s : Style) (f : Format) (bits : Nat) : String :=
  match decode f bits with
  | .nan => s.nan
  | .infinite negative => if negative then s.negativeInfinity else s.infinity
  | .finite negative mantissa exponent =>
    let sign := if negative then "-" else ""
    if mantissa = 0 then sign ++ "0"
    else
      let d := shortest f mantissa exponent
      sign ++ if d.exponent < s.minPositional || s.endPositional ≤ d.exponent
        then s.scientific d else positional d

end Jvm.Float
