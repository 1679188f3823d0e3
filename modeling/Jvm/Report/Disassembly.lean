import Jvm.ClassFile.Basic
import Jvm.Report.Describe

/-!
# The disassembly report

The listing of every method body, with the constants that instructions refer to beside them.
-/

namespace Jvm.ClassFile

def instructionLine (p : ConstantPool) (m : Method) (i : Instruction) : Except Fault String :=
  if i.hasPoolIndex then do
    let constant ← inContext s!"{m.text} @{i.address}" (p.describe i.index)
    return s!"  {i.text}\t// {constant}\n"
  else .ok s!"  {i.text}\n"

def haltLine (c : Code) (address : Nat) : String :=
  let opcode := (c.bytes[address]?.map UInt8.toNat).getD 0
  s!"  {address}: <unsupported opcode 0x{Text.Hex.lower 2 opcode}>\n"

def methodListing (c : ClassFile) (m : Method) (code : Code) : Except Fault String := do
  let lines ← code.listing.instructions.mapM (instructionLine c.pool m)
  let head := s!"{c.name}.{m.text} stack={code.maxStack.toNat} locals={code.maxLocals.toNat}\n"
  return String.join ((head :: lines) ++ (code.listing.halt?.map (haltLine code)).toList)

def disassembly (c : ClassFile) : Except Fault String := do
  let bodies := c.methods.filterMap fun m => m.code?.map fun code => (m, code)
  let listings ← bodies.mapM fun (m, code) => methodListing c m code
  return "\n".intercalate listings

end Jvm.ClassFile
