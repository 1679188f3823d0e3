import Jvm.Bytes
import Jvm.Text.ModifiedUtf8

/-!
# Constants

The entries of a constant pool, their tags and their binary form. Floating-point constants are kept
as bit patterns, and a string constant keeps the bytes it was read from, so that writing gives back
what reading found.
-/

namespace Jvm

/-! ### Tags -/

inductive ConstantTag where
  | utf8
  | integer
  | float
  | long
  | double
  | classRef
  | string
  | fieldref
  | methodref
  | interfaceMethodref
  | nameAndType
  | methodHandle
  | methodType
  | dynamic
  | invokeDynamic
  | module
  | package
  deriving Repr, DecidableEq

namespace ConstantTag

def all : List ConstantTag :=
  [utf8, integer, float, long, double, classRef, string, fieldref, methodref, interfaceMethodref,
    nameAndType, methodHandle, methodType, dynamic, invokeDynamic, module, package]

/-- The byte that opens an entry. -/
def code : ConstantTag → UInt8
  | utf8 => 1
  | integer => 3
  | float => 4
  | long => 5
  | double => 6
  | classRef => 7
  | string => 8
  | fieldref => 9
  | methodref => 10
  | interfaceMethodref => 11
  | nameAndType => 12
  | methodHandle => 15
  | methodType => 16
  | dynamic => 17
  | invokeDynamic => 18
  | module => 19
  | package => 20

def ofCode? (code : UInt8) : Option ConstantTag := all.find? (·.code == code)

def name : ConstantTag → String
  | utf8 => "Utf8"
  | integer => "Integer"
  | float => "Float"
  | long => "Long"
  | double => "Double"
  | classRef => "Class"
  | string => "String"
  | fieldref => "Fieldref"
  | methodref => "Methodref"
  | interfaceMethodref => "InterfaceMethodref"
  | nameAndType => "NameAndType"
  | methodHandle => "MethodHandle"
  | methodType => "MethodType"
  | dynamic => "Dynamic"
  | invokeDynamic => "InvokeDynamic"
  | module => "Module"
  | package => "Package"

/-- The name of a code, which need not be that of a tag. -/
def nameOfCode (code : UInt8) : String :=
  match ofCode? code with
  | some tag => tag.name
  | none => "Tag(" ++ toString code.toNat ++ ")"

end ConstantTag

/-! ### Entries -/

inductive Constant where
  /-- A string and, when it was read from a file, the bytes it was read from. -/
  | utf8 (value : String) (raw : Option Bytes)
  | integer (value : Int32)
  | float (bits : UInt32)
  | long (value : Int64)
  | double (bits : UInt64)
  | classRef (nameIndex : UInt16)
  | string (stringIndex : UInt16)
  | fieldref (classIndex nameAndTypeIndex : UInt16)
  | methodref (classIndex nameAndTypeIndex : UInt16)
  | interfaceMethodref (classIndex nameAndTypeIndex : UInt16)
  | nameAndType (nameIndex descriptorIndex : UInt16)
  | methodHandle (kind : UInt8) (referenceIndex : UInt16)
  | methodType (descriptorIndex : UInt16)
  | dynamic (bootstrapIndex nameAndTypeIndex : UInt16)
  | invokeDynamic (bootstrapIndex nameAndTypeIndex : UInt16)
  | module (nameIndex : UInt16)
  | package (nameIndex : UInt16)
  deriving Repr, DecidableEq

namespace Constant

def tag : Constant → ConstantTag
  | utf8 .. => .utf8
  | integer _ => .integer
  | float _ => .float
  | long _ => .long
  | double _ => .double
  | classRef _ => .classRef
  | string _ => .string
  | fieldref .. => .fieldref
  | methodref .. => .methodref
  | interfaceMethodref .. => .interfaceMethodref
  | nameAndType .. => .nameAndType
  | methodHandle .. => .methodHandle
  | methodType _ => .methodType
  | dynamic .. => .dynamic
  | invokeDynamic .. => .invokeDynamic
  | module _ => .module
  | package _ => .package

/-- Whether an entry takes two slots of the pool. -/
def isWide : Constant → Bool
  | long _ | double _ => true
  | _ => false

/-- The bytes of a string entry: those it was read from as long as they still read as its value,
otherwise the encoding of the value. -/
def utf8Bytes (value : String) (raw : Option Bytes) : Bytes :=
  match raw with
  | some bytes =>
    if Text.ModifiedUtf8.decode bytes = value then bytes else Text.ModifiedUtf8.encode value
  | none => Text.ModifiedUtf8.encode value

/-! ### Binary form -/

/-- The bytes after the tag. The length of a string is written modulo 65536. -/
def payload : Constant → Bytes
  | utf8 value raw =>
    let bytes := utf8Bytes value raw
    Bytes.ofU2 (UInt16.ofNat bytes.length) ++ bytes
  | integer value => Bytes.ofU4 value.toUInt32
  | float bits => Bytes.ofU4 bits
  | long value => Bytes.ofU8 value.toUInt64
  | double bits => Bytes.ofU8 bits
  | classRef i | string i | methodType i | module i | package i => Bytes.ofU2 i
  | fieldref i j | methodref i j | interfaceMethodref i j | nameAndType i j | dynamic i j
  | invokeDynamic i j => Bytes.ofU2 i ++ Bytes.ofU2 j
  | methodHandle kind i => kind :: Bytes.ofU2 i

def encode (c : Constant) : Bytes := c.tag.code :: c.payload

def readPair : Reader (UInt16 × UInt16) := do
  let i ← Reader.u2
  let j ← Reader.u2
  return (i, j)

def readPayload : ConstantTag → Reader Constant
  | .utf8 => do
    let n ← Reader.u2
    let bytes ← Reader.take n.toNat
    return utf8 (Text.ModifiedUtf8.decode bytes) (some bytes)
  | .integer => return integer (← Reader.u4).toInt32
  | .float => return float (← Reader.u4)
  | .long => return long (← Reader.u8).toInt64
  | .double => return double (← Reader.u8)
  | .classRef => return classRef (← Reader.u2)
  | .string => return string (← Reader.u2)
  | .fieldref => do let (i, j) ← readPair; return fieldref i j
  | .methodref => do let (i, j) ← readPair; return methodref i j
  | .interfaceMethodref => do let (i, j) ← readPair; return interfaceMethodref i j
  | .nameAndType => do let (i, j) ← readPair; return nameAndType i j
  | .methodHandle => do
    let kind ← Reader.u1
    let i ← Reader.u2
    return methodHandle kind i
  | .methodType => return methodType (← Reader.u2)
  | .dynamic => do let (i, j) ← readPair; return dynamic i j
  | .invokeDynamic => do let (i, j) ← readPair; return invokeDynamic i j
  | .module => return module (← Reader.u2)
  | .package => return package (← Reader.u2)

def parser : Parser Constant := do
  let code ← Parser.reading "constant tag" Reader.u1
  match ConstantTag.ofCode? code with
  | some tag => Parser.reading tag.name (readPayload tag)
  | none => Parser.fail (.of .format .invalidConstantTag ("tag " ++ toString code.toNat))

end Constant

end Jvm
