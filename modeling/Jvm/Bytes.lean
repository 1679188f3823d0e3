import Jvm.Fault

/-!
# Byte strings

Big-endian words as bytes and back, and the readers that consume a byte string from the front. A
`Reader` fails when the bytes run out and says no more; a `Parser` is a reader that names what it
was reading, so its failures are faults.
-/

namespace Jvm

abbrev Bytes := List UInt8

/-! ### Words -/

namespace Bytes

/-- A 16-bit word, high byte first. -/
def ofU2 (w : UInt16) : Bytes := [(w >>> 8).toUInt8, w.toUInt8]

def ofU4 (w : UInt32) : Bytes :=
  [(w >>> 24).toUInt8, (w >>> 16).toUInt8, (w >>> 8).toUInt8, w.toUInt8]

def ofU8 (w : UInt64) : Bytes := ofU4 (w >>> 32).toUInt32 ++ ofU4 w.toUInt32

def toU2 (a b : UInt8) : UInt16 := a.toUInt16 <<< 8 ||| b.toUInt16

def toU4 (a b c d : UInt8) : UInt32 :=
  a.toUInt32 <<< 24 ||| b.toUInt32 <<< 16 ||| c.toUInt32 <<< 8 ||| d.toUInt32

def joinU8 (high low : UInt32) : UInt64 := high.toUInt64 <<< 32 ||| low.toUInt64

@[simp] theorem length_ofU2 (w : UInt16) : (ofU2 w).length = 2 := rfl

@[simp] theorem length_ofU4 (w : UInt32) : (ofU4 w).length = 4 := rfl

@[simp] theorem length_ofU8 (w : UInt64) : (ofU8 w).length = 8 := rfl

end Bytes

/-! ### Readers -/

/-- Consumes bytes from the front; `none` when they run out. -/
abbrev Reader := StateT Bytes Option

namespace Reader

def u1 : Reader UInt8 := fun
  | a :: rest => some (a, rest)
  | [] => none

def u2 : Reader UInt16 := fun
  | a :: b :: rest => some (Bytes.toU2 a b, rest)
  | _ => none

def u4 : Reader UInt32 := fun
  | a :: b :: c :: d :: rest => some (Bytes.toU4 a b c d, rest)
  | _ => none

def u8 : Reader UInt64 := do
  let high ← u4
  let low ← u4
  return Bytes.joinU8 high low

def take (n : Nat) : Reader Bytes := fun s =>
  let taken := s.take n
  if taken.length = n then some (taken, s.drop n) else none

/-- Reads `n` more items onto the reversed list `acc`. -/
def itemsOnto {α : Type} (item : Reader α) : Nat → List α → Reader (List α)
  | 0, acc, s => some (acc.reverse, s)
  | n + 1, acc, s =>
    match item s with
    | none => none
    | some (a, rest) => itemsOnto item n (a :: acc) rest

def items {α : Type} (n : Nat) (item : Reader α) : Reader (List α) := itemsOnto item n []

/-- A two-byte count and that many items. -/
def counted {α : Type} (item : Reader α) : Reader (List α) := do
  let n ← u2
  items n.toNat item

end Reader

/-! ### Parsers -/

/-- A reader whose failures are faults. -/
abbrev Parser := StateT Bytes (Except Fault)

namespace Parser

@[inline] def fail {α : Type} (f : Fault) : Parser α := fun _ => .error f

/-- A reader that fails with a given fault when the bytes run out. -/
@[inline] def ofReader {α : Type} (short : Fault) (r : Reader α) : Parser α := fun s =>
  match r s with
  | some x => .ok x
  | none => .error short

def truncated (what : String) : Fault := .of .format .truncated ("reading " ++ what)

/-- A reader of the class file proper: running out of bytes means that the file is truncated. -/
@[inline] def reading {α : Type} (what : String) (r : Reader α) : Parser α :=
  ofReader (truncated what) r

/-- A computation that consumes nothing. -/
@[inline] def ofExcept {α : Type} (e : Except Fault α) : Parser α := fun s =>
  match e with
  | .ok a => .ok (a, s)
  | .error f => .error f

@[inline] def within {α : Type} (label : String) (p : Parser α) : Parser α := fun s =>
  match p s with
  | .ok x => .ok x
  | .error f => .error (.context label f)

def itemsOnto {α : Type} (item : Nat → Parser α) : Nat → Nat → List α → Parser (List α)
  | 0, _, acc, s => .ok (acc.reverse, s)
  | n + 1, i, acc, s =>
    match item i s with
    | .error f => .error f
    | .ok (a, rest) => itemsOnto item n (i + 1) (a :: acc) rest

def items {α : Type} (n : Nat) (item : Nat → Parser α) : Parser (List α) := itemsOnto item n 0 []

end Parser

end Jvm
