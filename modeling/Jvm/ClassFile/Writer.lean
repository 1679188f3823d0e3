import Jvm.ClassFile.Basic

/-!
# Writing class files

Attributes are written from their raw bytes, so a class file that was read is reproduced byte for
byte. Counts are written modulo the width of their field; only the pool can make writing fail.
-/

namespace Jvm

def encodeMember (flags nameIndex descriptorIndex : UInt16) (attributes : List Attribute) :
    Bytes :=
  Bytes.ofU2 flags ++ Bytes.ofU2 nameIndex ++ Bytes.ofU2 descriptorIndex ++
    Attribute.encodeAll attributes

def Field.encode (f : Field) : Bytes :=
  encodeMember f.flags f.nameIndex f.descriptorIndex f.attributes

def Method.encode (m : Method) : Bytes :=
  encodeMember m.flags m.nameIndex m.descriptorIndex m.attributes

def ClassFile.encode (c : ClassFile) : Except Fault Bytes := do
  let pool ← c.pool.encode
  return Bytes.ofU4 magic ++ Bytes.ofU2 c.minor ++ Bytes.ofU2 c.major ++ pool ++
    Bytes.ofU2 c.flags ++ Bytes.ofU2 c.thisClass ++ Bytes.ofU2 c.superClass ++
    Bytes.ofU2 (UInt16.ofNat c.interfaces.length) ++ c.interfaces.flatMap Bytes.ofU2 ++
    Bytes.ofU2 (UInt16.ofNat c.fields.length) ++ c.fields.flatMap Field.encode ++
    Bytes.ofU2 (UInt16.ofNat c.methods.length) ++ c.methods.flatMap Method.encode ++
    Attribute.encodeAll c.attributes

end Jvm
