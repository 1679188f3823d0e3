/-!
# Modified UTF-8

The string encoding of the class file: every UTF-16 code unit is written in one to three bytes, so
the null character takes two bytes and a supplementary character takes two units. Reading is
lenient: a byte that starts no complete sequence is a unit of its own, and a surrogate without its
partner is read as the replacement character.
-/

namespace Jvm.Text.ModifiedUtf8

/-! ### Code units -/

def unitsOfChar (c : Char) : List UInt16 :=
  if c.toNat < 0x10000 then [UInt16.ofNat c.toNat]
  else
    let offset := c.toNat - 0x10000
    [UInt16.ofNat (0xD800 + offset / 0x400), UInt16.ofNat (0xDC00 + offset % 0x400)]

/-- Whether a unit opens a surrogate pair. -/
def isHigh (u : UInt16) : Bool := 0xD800 ≤ u && u < 0xDC00

/-- Whether a unit closes a surrogate pair. -/
def isLow (u : UInt16) : Bool := 0xDC00 ≤ u && u < 0xE000

/-- What a surrogate without its partner is read as. -/
def replacement : Char := '\uFFFD'

def charOfPair (high low : UInt16) : Char :=
  Char.ofNat (0x10000 + (high.toNat - 0xD800) * 0x400 + (low.toNat - 0xDC00))

/-- The character of a unit that is not part of a pair. -/
def charOfUnit (u : UInt16) : Char :=
  if isHigh u || isLow u then replacement else Char.ofNat u.toNat

def charsOfUnits : List UInt16 → List Char
  | [] => []
  | [u] => [charOfUnit u]
  | u :: v :: rest =>
    if isHigh u && isLow v then charOfPair u v :: charsOfUnits rest
    else charOfUnit u :: charsOfUnits (v :: rest)

/-! ### Bytes -/

/-- The bytes of one unit: one for 1 to 0x7F, two for 0 and up to 0x7FF, otherwise three. -/
def bytesOfUnit (u : UInt16) : List UInt8 :=
  if u ≠ 0 ∧ u < 0x80 then [u.toUInt8]
  else if u < 0x800 then [(u >>> 6).toUInt8 ||| 0xC0, (u &&& 0x3F).toUInt8 ||| 0x80]
  else [(u >>> 12).toUInt8 ||| 0xE0, (u >>> 6 &&& 0x3F).toUInt8 ||| 0x80,
    (u &&& 0x3F).toUInt8 ||| 0x80]

def unitsOfBytes : List UInt8 → List UInt16
  | [] => []
  | [a] => [a.toUInt16]
  | [a, b] =>
    if a &&& 0xE0 = 0xC0 then [(a &&& 0x1F).toUInt16 <<< 6 ||| (b &&& 0x3F).toUInt16]
    else a.toUInt16 :: unitsOfBytes [b]
  | a :: b :: c :: rest =>
    if a &&& 0xE0 = 0xC0 then
      ((a &&& 0x1F).toUInt16 <<< 6 ||| (b &&& 0x3F).toUInt16) :: unitsOfBytes (c :: rest)
    else if a &&& 0xF0 = 0xE0 then
      ((a &&& 0x0F).toUInt16 <<< 12 ||| (b &&& 0x3F).toUInt16 <<< 6 |||
        (c &&& 0x3F).toUInt16) :: unitsOfBytes rest
    else a.toUInt16 :: unitsOfBytes (b :: c :: rest)

/-! ### Strings -/

def encode (s : String) : List UInt8 :=
  (s.toList.flatMap unitsOfChar).flatMap bytesOfUnit

def decode (bytes : List UInt8) : String :=
  String.ofList (charsOfUnits (unitsOfBytes bytes))

end Jvm.Text.ModifiedUtf8
