import Jvm.Bytes
import Jvm.Document.Basic

/-!
# CBOR

Documents in canonical CBOR: shortest heads, and the keys of a record sorted by length and then by
their bytes, so that equal documents have equal bytes. A list without items is `null`.
-/

namespace Jvm.Document.Cbor

/-- The head of an item: its major type and the shortest form of its argument. -/
def head (major : UInt8) (n : Nat) : Bytes :=
  let top := major <<< 5
  if n < 24 then [top ||| UInt8.ofNat n]
  else if n < 0x100 then [top ||| 24, UInt8.ofNat n]
  else if n < 0x10000 then (top ||| 25) :: Bytes.ofU2 (UInt16.ofNat n)
  else if n < 0x100000000 then (top ||| 26) :: Bytes.ofU4 (UInt32.ofNat n)
  else (top ||| 27) :: Bytes.ofU8 (UInt64.ofNat n)

def text (s : String) : Bytes :=
  let bytes := s.toUTF8.toList
  head 3 bytes.length ++ bytes

/-- The order of two keys: the shorter first, keys of one length by their bytes. -/
def keyLE (a b : String) : Bool :=
  a.utf8ByteSize < b.utf8ByteSize || (a.utf8ByteSize == b.utf8ByteSize && !(decide (b < a)))

mutual

def node : Document → Bytes
  | .text value => text value
  | .number value => head 0 value
  | .list [] => [0xf6]
  | .list (item :: rest) => head 4 (rest.length + 1) ++ (nodes (item :: rest)).flatten
  | .record fields =>
    let sorted := (members fields).mergeSort fun a b => keyLE a.1 b.1
    head 5 fields.length ++ sorted.flatMap fun member => text member.1 ++ member.2

def nodes : List Document → List Bytes
  | [] => []
  | item :: rest => node item :: nodes rest

/-- The fields of a record, each with the bytes of its value. -/
def members : List (String × Document) → List (String × Bytes)
  | [] => []
  | (key, value) :: rest => (key, node value) :: members rest

end

def render (d : Document) : Bytes := node d

end Jvm.Document.Cbor
