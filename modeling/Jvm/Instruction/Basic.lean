import Jvm.Bytes
import Jvm.Instruction.Opcode

/-!
# Instructions

An instruction is an opcode with its operand, bound to its address in the code. `Instruction.front?`
reads one from the front of a byte string; `Instruction.decode?` reads the one at a given address.
-/

namespace Jvm

inductive Operand where
  | none
  | slot (index : UInt8)
  | immediate (value : Int16)
  | pool (index : UInt16)
  | increment (slot : UInt8) (amount : Int8)
  | branch (offset : Int16)
  | interface (index : UInt16) (count : UInt8)
  deriving Repr, DecidableEq

/-- Reads an operand of the given layout from the front of the operand bytes. The last byte of an
interface call is not recorded. -/
def Operand.front? : Shape → Bytes → Option Operand
  | .none, _ => some .none
  | .slot, a :: _ => some (.slot a)
  | .byteImmediate, a :: _ => some (.immediate a.toInt8.toInt16)
  | .shortImmediate, a :: b :: _ => some (.immediate (Bytes.toU2 a b).toInt16)
  | .poolByte, a :: _ => some (.pool a.toUInt16)
  | .pool, a :: b :: _ => some (.pool (Bytes.toU2 a b))
  | .increment, a :: b :: _ => some (.increment a b.toInt8)
  | .branch, a :: b :: _ => some (.branch (Bytes.toU2 a b).toInt16)
  | .interface, a :: b :: c :: _ :: _ => some (.interface (Bytes.toU2 a b) c)
  | _, _ => Option.none

structure Instruction where
  address : Nat
  opcode : Opcode
  operand : Operand
  deriving Repr, DecidableEq

namespace Instruction

/-- The local slot or constant-pool index that the instruction names, or 0. -/
def index (i : Instruction) : UInt16 :=
  match i.operand with
  | .slot n | .increment n _ => n.toUInt16
  | .pool n | .interface n _ => n
  | _ => i.opcode.impliedSlot

/-- The immediate value or increment, or 0. -/
def value (i : Instruction) : Int32 :=
  match i.operand with
  | .immediate v => v.toInt32
  | .increment _ v => v.toInt32
  | _ => 0

/-- The branch offset relative to the address, or 0. -/
def offset (i : Instruction) : Int :=
  match i.operand with
  | .branch o => o.toInt
  | _ => 0

/-- The argument-slot count of an interface call, or 0. -/
def count (i : Instruction) : UInt8 :=
  match i.operand with
  | .interface _ c => c
  | _ => 0

def operandLength (i : Instruction) : Nat := i.opcode.shape.width

/-- The address of the instruction that follows in the code. -/
def next (i : Instruction) : Nat := i.address + 1 + i.operandLength

def hasPoolIndex (i : Instruction) : Bool :=
  match i.opcode.shape with
  | .poolByte | .pool | .interface => true
  | _ => false

def target (i : Instruction) : Int := i.address + i.offset

/-- The listing text: address, mnemonic and operand. Branches show their absolute target. -/
def text (i : Instruction) : String :=
  let head := toString i.address ++ ": " ++ i.opcode.name
  match i.operand with
  | .none => head
  | .slot n => head ++ " " ++ toString n.toNat
  | .immediate v => head ++ " " ++ toString v.toInt
  | .pool n => head ++ " #" ++ toString n.toNat
  | .increment n v => head ++ " " ++ toString n.toNat ++ ", " ++ toString v.toInt
  | .branch _ => head ++ " " ++ toString i.target
  | .interface n c => head ++ " #" ++ toString n.toNat ++ ", " ++ toString c.toNat

/-- The instruction at the front of `bytes`, bound to `address`. Fails when the opcode is not
supported or its operand is cut off. -/
def front? (address : Nat) : Bytes → Option Instruction
  | [] => none
  | b :: rest => do
    let opcode ← Opcode.ofByte? b
    let operand ← Operand.front? opcode.shape rest
    return { address, opcode, operand }

def decode? (code : Bytes) (pc : Int) : Option Instruction :=
  if pc < 0 then none else front? pc.toNat (code.drop pc.toNat)

end Instruction

end Jvm
