import Jvm.Constant.Pool
import Jvm.Float.Decimal
import Jvm.Text.Quoted

/-!
# Constants in words

The value of a constant as text, with its references to other constants followed.
-/

namespace Jvm.ConstantPool

/-- The text of a constant. Strings are quoted, and floating-point numbers are written with the fewest
digits that identify them in their own format. -/
def valueText (p : ConstantPool) (index : UInt16) : Constant → Except Fault String
  | .utf8 value _ => .ok (Text.quoted value)
  | .integer value => .ok (toString value.toInt)
  | .float bits => .ok (Float.Style.general.render .single bits.toNat)
  | .long value => .ok (toString value.toInt)
  | .double bits => .ok (Float.Style.general.render .double bits.toNat)
  | .classRef _ => p.className index
  | .string _ => do return Text.quoted (← p.string index)
  | .fieldref .. => do return (← p.fieldref index).text
  | .methodref .. | .interfaceMethodref .. => do return (← p.anyMethodref index).1.text
  | .nameAndType .. => do
    let (name, descriptor) ← p.nameAndType index
    return name ++ ":" ++ descriptor
  | .methodHandle kind reference => .ok s!"kind {kind.toNat} #{reference.toNat}"
  | .methodType _ => p.methodType index
  | .dynamic bootstrap nameAndType | .invokeDynamic bootstrap nameAndType => do
    let (name, descriptor) ← p.nameAndType nameAndType
    return s!"bootstrap {bootstrap.toNat} {name}:{descriptor}"
  | .module name | .package name => p.utf8 name

def describe (p : ConstantPool) (index : UInt16) : Except Fault String := do
  let c ← p.entry index
  let value ← p.valueText index c
  return c.tag.name ++ " " ++ value

/-- The indices that name an entry, with their entries, in order. -/
def entries (p : ConstantPool) : List (UInt16 × Constant) :=
  (List.range p.count).filterMap fun i =>
    let index := UInt16.ofNat i
    if p.usable index then (p.slot? index).map fun c => (index, c) else none

end Jvm.ConstantPool
