/-!
# Binary floating-point numbers

The two interchange formats of the class file, as bit patterns and as the exact numbers
`± mantissa · 2 ^ exponent` that they stand for. All arithmetic is on natural numbers and integers,
so a conversion between the formats is a function that proofs can unfold.
-/

namespace Jvm.Float

/-- The layout of a binary interchange format: a sign bit, an exponent and a fraction. -/
structure Format where
  fractionBits : Nat
  exponentBits : Nat
  deriving Repr, DecidableEq

namespace Format

def single : Format := ⟨23, 8⟩

def double : Format := ⟨52, 11⟩

/-- The exponent of the last place of the smallest numbers. -/
def minExponent (f : Format) : Int :=
  2 - Nat.pow 2 (f.exponentBits - 1) - f.fractionBits

end Format

inductive Number where
  | nan
  | infinite (negative : Bool)
  | finite (negative : Bool) (mantissa : Nat) (exponent : Int)
  deriving Repr, DecidableEq

def decode (f : Format) (bits : Nat) : Number :=
  let fraction := bits % Nat.pow 2 f.fractionBits
  let biased := bits / Nat.pow 2 f.fractionBits % Nat.pow 2 f.exponentBits
  let negative := decide (bits / Nat.pow 2 (f.fractionBits + f.exponentBits) % 2 = 1)
  if biased = Nat.pow 2 f.exponentBits - 1 then
    if fraction = 0 then .infinite negative else .nan
  else if biased = 0 then .finite negative fraction f.minExponent
  else .finite negative (Nat.pow 2 f.fractionBits + fraction) (f.minExponent + biased - 1)

/-- The quotient `n / d` rounded to the nearest integer, a tie to the even one. -/
def roundHalfEven (n d : Nat) : Nat :=
  let q := n / d
  let r := n % d
  if 2 * r < d then q
  else if 2 * r = d ∧ q % 2 = 0 then q
  else q + 1

def signBit (f : Format) (negative : Bool) : Nat :=
  if negative then Nat.pow 2 (f.fractionBits + f.exponentBits) else 0

def infinityBits (f : Format) : Nat :=
  (Nat.pow 2 f.exponentBits - 1) * Nat.pow 2 f.fractionBits

/-- The bit pattern nearest to a number, a tie to the even one; too large a number is infinite.
Every `nan` becomes the quiet pattern without payload. -/
def encode (f : Format) : Number → Nat
  | .nan => infinityBits f + Nat.pow 2 (f.fractionBits - 1)
  | .infinite negative => signBit f negative + infinityBits f
  | .finite negative mantissa exponent =>
    if mantissa = 0 then signBit f negative
    else
      let wanted : Int := exponent + mantissa.log2 - f.fractionBits
      let place := max wanted f.minExponent
      let rounded :=
        if place ≤ exponent then mantissa * Nat.pow 2 (exponent - place).toNat
        else roundHalfEven mantissa (Nat.pow 2 (place - exponent).toNat)
      let magnitude := (place - f.minExponent).toNat * Nat.pow 2 f.fractionBits + rounded
      signBit f negative + min magnitude (infinityBits f)

/-- A 32-bit number in the 64-bit format, which holds it exactly. -/
def widen (bits : UInt32) : UInt64 :=
  UInt64.ofNat (encode .double (decode .single bits.toNat))

/-- A 64-bit number rounded to the 32-bit format. -/
def narrow (bits : UInt64) : UInt32 :=
  UInt32.ofNat (encode .single (decode .double bits.toNat))

end Jvm.Float
