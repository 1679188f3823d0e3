import Jvm.ClassFile.Basic
import Jvm.Document.Basic
import Jvm.Report.Describe

/-!
# Class summaries

What the reports show of a class file: names in place of indices, types in place of descriptors,
and method bodies as listings. Building a summary fails where a reference or descriptor cannot be
followed, with the constant or member in which it stands as context.
-/

namespace Jvm

structure ConstantSummary where
  index : UInt16
  tag : ConstantTag
  value : String
  deriving Repr, DecidableEq

structure FieldSummary where
  name : String
  descriptor : String
  type : String
  flags : List String
  /-- The initial value in words; empty when there is none. -/
  constantValue : String
  deriving Repr, DecidableEq

structure CodeSummary where
  maxStack : UInt16
  maxLocals : UInt16
  instructions : List String
  /-- Where the listing had to stop before the end of the code. -/
  halt? : Option Nat
  deriving Repr, DecidableEq

structure MethodSummary where
  name : String
  descriptor : String
  returnType : String
  parameters : List String
  flags : List String
  code? : Option CodeSummary
  deriving Repr, DecidableEq

structure ClassSummary where
  name : String
  superName : String
  interfaces : List String
  kind : String
  flags : List String
  major : UInt16
  minor : UInt16
  sourceFile : String
  constants : List ConstantSummary
  fields : List FieldSummary
  methods : List MethodSummary
  attributes : List String
  deriving Repr, DecidableEq

namespace ClassSummary

/-! ### From a class file -/

def kindOf (flags : UInt16) : String :=
  if Access.has flags Access.annotationBit then "annotation"
  else if Access.has flags Access.enumBit then "enum"
  else if Access.has flags Access.interfaceBit then "interface"
  else if Access.has flags Access.moduleBit then "module"
  else "class"

def constant (p : ConstantPool) (index : UInt16) (c : Constant) :
    Except Fault ConstantSummary := do
  let value ← inContext s!"constant #{index.toNat}" (p.valueText index c)
  return { index, tag := c.tag, value }

/-- The initial value of a field in words, or the empty text. -/
def initialValue (p : ConstantPool) (f : Field) : Except Fault String :=
  if f.constantValue = 0 then .ok ""
  else do
    let c ← p.entry f.constantValue
    p.valueText f.constantValue c

def field (p : ConstantPool) (f : Field) : Except Fault FieldSummary :=
  inContext ("field " ++ f.name) do
    let type ← f.type
    let constantValue ← initialValue p f
    return { name := f.name, descriptor := f.descriptor, type := type.text
             flags := Access.names .field f.flags, constantValue }

def code (c : Code) : CodeSummary :=
  { maxStack := c.maxStack, maxLocals := c.maxLocals
    instructions := c.listing.instructions.map Instruction.text
    halt? := c.listing.halt? }

def method (m : Method) : Except Fault MethodSummary :=
  inContext ("method " ++ m.text) do
    let type ← m.type
    return { name := m.name, descriptor := m.descriptor
             returnType := (type.result.map FieldType.text).getD "void"
             parameters := type.parameters.map FieldType.text
             flags := Access.names .method m.flags
             code? := m.code?.map code }

def ofClassFile (c : ClassFile) : Except Fault ClassSummary := do
  let constants ← c.pool.entries.mapM fun (index, entry) => constant c.pool index entry
  let fields ← c.fields.mapM (field c.pool)
  let methods ← c.methods.mapM method
  return { name := c.name, superName := c.superName, interfaces := c.interfaceNames
           kind := kindOf c.flags, flags := Access.names .wholeClass c.flags
           major := c.major, minor := c.minor, sourceFile := c.sourceFile
           constants, fields, methods
           attributes := c.attributes.map Attribute.name }

end ClassSummary

/-! ### As a document -/

def ConstantSummary.document (c : ConstantSummary) : Document :=
  .record [("index", .number c.index.toNat), ("tag", .text c.tag.name), ("value", .text c.value)]

def FieldSummary.document (f : FieldSummary) : Document :=
  .record ([("name", .text f.name), ("descriptor", .text f.descriptor), ("type", .text f.type)] ++
    Document.listField? "flags" (f.flags.map .text) ++
    Document.textField? "constantValue" f.constantValue)

def CodeSummary.document (c : CodeSummary) : Document :=
  .record ([("maxStack", .number c.maxStack.toNat), ("maxLocals", .number c.maxLocals.toNat),
    ("instructions", Document.texts c.instructions)] ++
    (c.halt?.map fun address => ("haltAddress", Document.number address)).toList)

def MethodSummary.document (m : MethodSummary) : Document :=
  .record ([("name", .text m.name), ("descriptor", .text m.descriptor),
    ("returnType", .text m.returnType)] ++
    Document.listField? "parameters" (m.parameters.map .text) ++
    Document.listField? "flags" (m.flags.map .text) ++
    (m.code?.map fun code => ("code", code.document)).toList)

def ClassSummary.document (c : ClassSummary) : Document :=
  .record ([("name", .text c.name)] ++
    Document.textField? "superClass" c.superName ++
    Document.listField? "interfaces" (c.interfaces.map .text) ++
    [("kind", .text c.kind)] ++
    Document.listField? "flags" (c.flags.map .text) ++
    [("version", .record [("major", .number c.major.toNat), ("minor", .number c.minor.toNat)])] ++
    Document.textField? "sourceFile" c.sourceFile ++
    [("constantPool", .list (c.constants.map ConstantSummary.document))] ++
    Document.listField? "fields" (c.fields.map FieldSummary.document) ++
    Document.listField? "methods" (c.methods.map MethodSummary.document) ++
    Document.listField? "attributes" (c.attributes.map .text))

end Jvm
