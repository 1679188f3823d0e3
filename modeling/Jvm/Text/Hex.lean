/-!
# Hexadecimal text

Numbers padded to a width, and byte strings written two digits a byte.
-/

namespace Jvm.Text.Hex

/-- Lowercase hexadecimal digits of `n`, padded with zeros to at least `width` digits. -/
def lower (width n : Nat) : String :=
  let digits := Nat.toDigits 16 n
  String.ofList (List.replicate (width - digits.length) '0' ++ digits)

def upper (width n : Nat) : String :=
  String.ofList ((lower width n).toList.map Char.toUpper)

def ofBytes (bytes : List UInt8) : String :=
  String.ofList (bytes.flatMap fun b =>
    [Nat.digitChar (b.toNat / 16), Nat.digitChar (b.toNat % 16)])

def digit? (c : Char) : Option Nat :=
  if '0' ≤ c ∧ c ≤ '9' then some (c.toNat - '0'.toNat)
  else if 'a' ≤ c ∧ c ≤ 'f' then some (c.toNat - 'a'.toNat + 10)
  else if 'A' ≤ c ∧ c ≤ 'F' then some (c.toNat - 'A'.toNat + 10)
  else none

/-- The number that a nonempty string of hexadecimal digits writes. -/
def toNat? (cs : List Char) : Option Nat :=
  if cs.isEmpty then none
  else cs.foldl (fun acc c => do return (← acc) * 16 + (← digit? c)) (some 0)

def toBytes? : List Char → Option (List UInt8)
  | [] => some []
  | [_] => none
  | a :: b :: rest => do
    let high ← digit? a
    let low ← digit? b
    let tail ← toBytes? rest
    return UInt8.ofNat (high * 16 + low) :: tail

end Jvm.Text.Hex
