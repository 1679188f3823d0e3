import Jvm.Float.Binary

/-!
# Decimals beyond the range

Which decimals round to infinity in the double format.
-/

namespace Jvm.Float

/-- The least number that rounds to infinity in the double format: half a unit above the largest
finite number. -/
def doubleOverflow : Nat := (Nat.pow 2 54 - 1) * Nat.pow 2 970

/-- Whether `coefficient · 10 ^ exponent` rounds to infinity. Only decimals near the bound are
compared exactly. -/
def overflowsDouble (coefficient : Nat) (exponent : Int) : Bool :=
  let places := (Nat.toDigits 10 coefficient).length + exponent
  if coefficient = 0 || places < 300 then false
  else if 320 < places then true
  else doubleOverflow * Nat.pow 10 (-exponent).toNat ≤ coefficient * Nat.pow 10 exponent.toNat

end Jvm.Float
