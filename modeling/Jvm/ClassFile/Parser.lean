import Jvm.ClassFile.Basic
import Jvm.Text.Hex

/-!
# Reading class files

The whole byte string must be one class file: it is read front to back, every index that names a
class, a member or an attribute is resolved against the finished pool, and nothing may follow.
-/

namespace Jvm

/-- The three words that open a field or method. -/
def memberHead : Reader (UInt16 × UInt16 × UInt16) := do
  let flags ← Reader.u2
  let nameIndex ← Reader.u2
  let descriptorIndex ← Reader.u2
  return (flags, nameIndex, descriptorIndex)

/-- Reads a field or method, which messages call `kind`, and makes it of its parts. -/
def memberParser {α : Type} (kind : String) (pool : ConstantPool)
    (make : UInt16 → UInt16 → UInt16 → List Attribute → String → String → α) : Parser α := do
  let (flags, nameIndex, descriptorIndex) ← Parser.reading (kind ++ " header") memberHead
  let name ← Parser.within (kind ++ " name") (Parser.ofExcept (pool.utf8 nameIndex))
  let descriptor ← Parser.within (kind ++ " descriptor")
    (Parser.ofExcept (pool.utf8 descriptorIndex))
  let attributes ← Attribute.parserAll pool (kind ++ " " ++ name)
  return make flags nameIndex descriptorIndex attributes name descriptor

def Field.parser (pool : ConstantPool) : Parser Field := memberParser "field" pool Field.mk

def Method.parser (pool : ConstantPool) : Parser Method := memberParser "method" pool Method.mk

namespace ClassFile

def magicParser : Parser Unit := do
  let found ← Parser.reading "magic" Reader.u4
  if found = magic then return ()
  else Parser.fail (.of .format .badMagic ("0x" ++ Text.Hex.upper 8 found.toNat))

/-- The words between the constant pool and the interfaces. -/
structure Head where
  flags : UInt16
  thisClass : UInt16
  superClass : UInt16
  interfaceCount : UInt16

def Head.reader : Reader Head := do
  let flags ← Reader.u2
  let thisClass ← Reader.u2
  let superClass ← Reader.u2
  let interfaceCount ← Reader.u2
  return { flags, thisClass, superClass, interfaceCount }

/-- Reads the index of an interface and resolves its name. -/
def interfaceParser (pool : ConstantPool) (i : Nat) : Parser (UInt16 × String) := do
  let index ← Parser.reading "interfaces" Reader.u2
  let name ← Parser.within s!"interface {i}" (Parser.ofExcept (pool.className index))
  return (index, name)

/-- Resolves the name of the superclass, which is empty for index 0. -/
def superNameParser (pool : ConstantPool) (index : UInt16) : Parser String :=
  if index = 0 then pure ""
  else Parser.within "super_class" (Parser.ofExcept (pool.className index))

def parser : Parser ClassFile := do
  magicParser
  let (minor, major) ← Parser.reading "version" Constant.readPair
  let pool ← ConstantPool.parser
  let head ← Parser.reading "class header" Head.reader
  let name ← Parser.within "this_class" (Parser.ofExcept (pool.className head.thisClass))
  let superName ← superNameParser pool head.superClass
  let interfaces ← Parser.items head.interfaceCount.toNat (interfaceParser pool)
  let fieldCount ← Parser.reading "fields count" Reader.u2
  let fields ← Parser.items fieldCount.toNat fun i =>
    Parser.within s!"failed to read field {i}" (Field.parser pool)
  let methodCount ← Parser.reading "methods count" Reader.u2
  let methods ← Parser.items methodCount.toNat fun i =>
    Parser.within s!"failed to read method {i}" (Method.parser pool)
  let attributes ← Attribute.parserAll pool "class attributes"
  return {
    minor, major, pool
    flags := head.flags
    thisClass := head.thisClass
    superClass := head.superClass
    interfaces := interfaces.map (·.1)
    fields, methods, attributes, name, superName
    interfaceNames := interfaces.map (·.2) }

def parse (data : Bytes) : Except Fault ClassFile :=
  match parser data with
  | .error f => .error f
  | .ok (c, []) => .ok c
  | .ok (c, _ :: _) => .error (.of .format .trailingData ("after class " ++ c.name))

end ClassFile

end Jvm
