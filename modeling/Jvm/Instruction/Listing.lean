import Jvm.Instruction.Basic

/-!
# Listings

The linear disassembly of a method body: instructions are decoded one after the other from address
0, until the code ends or an instruction cannot be decoded.
-/

namespace Jvm

structure Listing where
  instructions : List Instruction
  /-- The address at which the sweep had to stop before the end of the code. -/
  halt? : Option Nat
  /-- The position among the instructions of the one at each address, latest first. -/
  byAddress : List (Nat × Nat)
  deriving Repr, DecidableEq

namespace Listing

/-- The instructions that a sweep has found so far, the latest first, with their number and the
positions of their addresses. -/
structure Found where
  instructions : List Instruction := []
  count : Nat := 0
  byAddress : List (Nat × Nat) := []

namespace Found

def add (found : Found) (address : Nat) (i : Instruction) : Found :=
  ⟨i :: found.instructions, found.count + 1, (address, found.count) :: found.byAddress⟩

def listing (found : Found) (halt? : Option Nat) : Listing :=
  ⟨found.instructions.reverse, halt?, found.byAddress⟩

end Found

/-- Continues a sweep at `address`: first `skip` operand bytes are passed over, then the next
instruction is decoded. -/
def sweepFrom (found : Found) : Nat → Nat → Bytes → Listing
  | _, _, [] => found.listing none
  | address, skip + 1, _ :: rest => sweepFrom found (address + 1) skip rest
  | address, 0, b :: rest =>
    match Instruction.front? address (b :: rest) with
    | none => found.listing (some address)
    | some i => sweepFrom (found.add address i) (address + 1) i.operandLength rest

def sweep (code : Bytes) : Listing := sweepFrom {} 0 0 code

/-- The instruction that starts at `pc`, if the sweep placed one there. -/
def at? (l : Listing) (pc : Int) : Option Instruction := do
  let (_, position) ← l.byAddress.find? fun entry => (entry.1 : Int) == pc
  l.instructions[position]?

end Listing

end Jvm
