import Jvm.Attribute.Basic
import Jvm.Constant.Pool

/-!
# Decoding attributes

An attribute is decoded by its name against the finished constant pool. The attributes inside a
method body are decoded in the same way. Every one of them is shorter than the attribute around it,
so the number of bytes bounds the nesting.

The binary forms of the structured bodies stand beside their readers.
-/

namespace Jvm

/-! ### Parts -/

namespace ExceptionHandler

def reader : Reader ExceptionHandler := do
  let start ← Reader.u2
  let stop ← Reader.u2
  let handler ← Reader.u2
  let catchType ← Reader.u2
  return { start, stop, handler, catchType }

def encode (h : ExceptionHandler) : Bytes :=
  Bytes.ofU2 h.start ++ Bytes.ofU2 h.stop ++ Bytes.ofU2 h.handler ++ Bytes.ofU2 h.catchType

end ExceptionHandler

namespace BootstrapMethod

def reader : Reader BootstrapMethod := do
  let reference ← Reader.u2
  let arguments ← Reader.counted Reader.u2
  return { reference, arguments }

def encode (m : BootstrapMethod) : Bytes :=
  Bytes.ofU2 m.reference ++ Bytes.ofU2 (UInt16.ofNat m.arguments.length) ++
    m.arguments.flatMap Bytes.ofU2

end BootstrapMethod

namespace Code

structure Head where
  maxStack : UInt16
  maxLocals : UInt16
  bytes : Bytes
  handlers : List ExceptionHandler

def Head.reader : Reader Head := do
  let maxStack ← Reader.u2
  let maxLocals ← Reader.u2
  let length ← Reader.u4
  let bytes ← Reader.take length.toNat
  let handlers ← Reader.counted ExceptionHandler.reader
  return { maxStack, maxLocals, bytes, handlers }

/-- The binary form of a method body. Counts are written modulo their width. -/
def encode (c : Code) : Bytes :=
  Bytes.ofU2 c.maxStack ++ Bytes.ofU2 c.maxLocals ++
    Bytes.ofU4 (UInt32.ofNat c.bytes.length) ++ c.bytes ++
    Bytes.ofU2 (UInt16.ofNat c.handlers.length) ++ c.handlers.flatMap ExceptionHandler.encode ++
    Attribute.encodeAll c.attributes

end Code

/-! ### Bodies -/

namespace Attribute

def short (name : String) : Fault :=
  .of .format .malformedAttribute (name ++ " is truncated")

def trailing (name : String) : Fault :=
  .of .format .malformedAttribute (name ++ " has trailing bytes")

/-- Runs a parser on the bytes of an attribute, all of which it must consume. -/
def whole (name : String) (p : Parser AttributeBody) (info : Bytes) : Except Fault AttributeBody :=
  match p info with
  | .error f => .error f
  | .ok (body, []) => .ok body
  | .ok (_, _ :: _) => .error (trailing name)

def rawReader : Reader (UInt16 × Bytes) := do
  let nameIndex ← Reader.u2
  let length ← Reader.u4
  let info ← Reader.take length.toNat
  return (nameIndex, info)

def parserWith (decode : String → Bytes → Except Fault AttributeBody) (pool : ConstantPool) :
    Parser Attribute := do
  let (nameIndex, info) ← Parser.reading "attribute" rawReader
  let name ← Parser.within "attribute name" (Parser.ofExcept (pool.utf8 nameIndex))
  let body ← Parser.ofExcept (decode name info)
  return { nameIndex, name, info, body }

def parserAllWith (decode : String → Bytes → Except Fault AttributeBody) (pool : ConstantPool)
    (owner : String) : Parser (List Attribute) := do
  let count ← Parser.reading (owner ++ " attribute count") Reader.u2
  Parser.items count.toNat fun i =>
    Parser.within s!"{owner} attribute {i}" (parserWith decode pool)

def codeParserWith (decode : String → Bytes → Except Fault AttributeBody) (pool : ConstantPool) :
    Parser Code := do
  let head ← Parser.reading "Code" Code.Head.reader
  let attributes ← Parser.within "nested" (parserAllWith decode pool "Code")
  return Code.make head.maxStack head.maxLocals head.bytes head.handlers attributes

/-- Decodes an attribute in which method bodies are nested at most `depth` deep. -/
def decodeWithin (pool : ConstantPool) : Nat → String → Bytes → Except Fault AttributeBody
  | 0, name, _ => .error (short name)
  | depth + 1, name, info =>
    if name = "ConstantValue" then
      whole name (.constantValue <$> Parser.ofReader (short name) Reader.u2) info
    else if name = "Code" then
      whole name (.code <$> codeParserWith (decodeWithin pool depth) pool) info
    else if name = "StackMapTable" then
      whole name (.stackMapTable <$> StackMap.parser) info
    else if name = "Exceptions" then
      whole name (.exceptions <$> Parser.ofReader (short name) (Reader.counted Reader.u2)) info
    else if name = "BootstrapMethods" then
      whole name
        (.bootstrapMethods <$> Parser.ofReader (short name) (Reader.counted BootstrapMethod.reader))
        info
    else .ok .generic

def decode (pool : ConstantPool) (name : String) (info : Bytes) : Except Fault AttributeBody :=
  decodeWithin pool (info.length + 1) name info

def parserAll (pool : ConstantPool) (owner : String) : Parser (List Attribute) :=
  parserAllWith (decode pool) pool owner

end Attribute

end Jvm
