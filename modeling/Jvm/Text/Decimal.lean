import Jvm.Float.Range

/-!
# Decimal fractions as text

Digits with an optional point and an optional exponent, as configuration and report formats write
floating-point numbers.
-/

namespace Jvm.Text.Decimal

/-- A decimal that was read: `coefficient · 10 ^ exponent`. -/
structure Reading where
  coefficient : Nat
  exponent : Int
  deriving Repr, DecidableEq

def number (digits : List Char) : Nat :=
  digits.foldl (fun n c => n * 10 + (c.toNat - '0'.toNat)) 0

/-- An exponent part: nothing, or `e` with an optional sign and at least one digit. -/
def exponent? : List Char → Option Int
  | [] => some 0
  | c :: rest =>
    if c = 'e' || c = 'E' then
      match rest with
      | '-' :: digits => (digits? digits).map fun n => -(n : Int)
      | '+' :: digits => (digits? digits).map fun n => (n : Int)
      | digits => (digits? digits).map fun n => (n : Int)
    else none
where
  digits? (digits : List Char) : Option Nat :=
    if digits.isEmpty || !digits.all Char.isDigit then none else some (number digits)

/-- Reads digits, a point with digits on at least one side of it, and an exponent part. -/
def unsigned? (cs : List Char) : Option Reading :=
  let whole := cs.takeWhile Char.isDigit
  match cs.dropWhile Char.isDigit with
  | '.' :: after =>
    let fraction := after.takeWhile Char.isDigit
    if whole.isEmpty && fraction.isEmpty then none
    else (exponent? (after.dropWhile Char.isDigit)).map fun e =>
      ⟨number (whole ++ fraction), e - fraction.length⟩
  | after =>
    if whole.isEmpty then none else (exponent? after).map fun e => ⟨number whole, e⟩

/-- Whether the decimal rounds to a finite double. -/
def Reading.isFinite (r : Reading) : Bool := !Float.overflowsDouble r.coefficient r.exponent

def dropSign : List Char → List Char
  | '-' :: rest | '+' :: rest => rest
  | cs => cs

end Jvm.Text.Decimal
