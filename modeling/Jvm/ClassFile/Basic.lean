import Jvm.Access
import Jvm.Attribute.Decoder
import Jvm.Descriptor

/-!
# Class files

The structure of a class file. Indices into the constant pool are kept as they stand in the file,
and the names they lead to beside them.
-/

namespace Jvm

structure Field where
  flags : UInt16
  nameIndex : UInt16
  descriptorIndex : UInt16
  attributes : List Attribute
  name : String := ""
  descriptor : String := ""

namespace Field

/-- Whether the field belongs to the class rather than to its instances. -/
def isStatic (f : Field) : Bool := Access.has f.flags Access.staticBit

/-- The pool index of the initial value, or 0. -/
def constantValue (f : Field) : UInt16 :=
  ((Attribute.find? f.attributes "ConstantValue").bind Attribute.constantValue?).getD 0

def type (f : Field) : Except Fault FieldType := FieldType.parse f.descriptor

end Field

structure Method where
  flags : UInt16
  nameIndex : UInt16
  descriptorIndex : UInt16
  attributes : List Attribute
  name : String := ""
  descriptor : String := ""

namespace Method

/-- Name and descriptor run together. -/
def text (m : Method) : String := m.name ++ m.descriptor

/-- The method body; abstract and native methods have none. -/
def code? (m : Method) : Option Code :=
  (Attribute.find? m.attributes "Code").bind Attribute.code?

/-- Whether the method has no receiver. -/
def isStatic (m : Method) : Bool := Access.has m.flags Access.staticBit

def isPrivate (m : Method) : Bool := Access.has m.flags Access.privateBit

def isNative (m : Method) : Bool := Access.has m.flags Access.nativeBit

def isAbstract (m : Method) : Bool := Access.has m.flags Access.abstractBit

def isSynchronized (m : Method) : Bool := Access.has m.flags Access.synchronizedBit

def isConstructor (m : Method) : Bool := m.name = "<init>"

def isClassInitializer (m : Method) : Bool := m.name = "<clinit>"

def type (m : Method) : Except Fault MethodDescriptor := MethodDescriptor.parse m.descriptor

/-- Whether a method of class `owner` is signature polymorphic: a native varargs method of a method
or variable handle that takes a single array of objects. -/
def isSignaturePolymorphic (m : Method) (owner : String) : Bool :=
  (owner = "java/lang/invoke/MethodHandle" || owner = "java/lang/invoke/VarHandle") &&
    Access.has m.flags Access.varargsBit && m.isNative &&
    m.descriptor = "([Ljava/lang/Object;)Ljava/lang/Object;"

end Method

structure ClassFile where
  minor : UInt16
  major : UInt16
  pool : ConstantPool
  flags : UInt16
  thisClass : UInt16
  superClass : UInt16
  interfaces : List UInt16
  fields : List Field
  methods : List Method
  attributes : List Attribute
  name : String := ""
  /-- The name of the superclass; empty when there is none. -/
  superName : String := ""
  interfaceNames : List String := []

namespace ClassFile

def magic : UInt32 := 0xCAFEBABE

/-- Whether the file declares an interface that is no annotation. -/
def isInterface (c : ClassFile) : Bool :=
  Access.has c.flags Access.interfaceBit && !Access.has c.flags Access.annotationBit

/-- The first field with a name and descriptor; the empty descriptor matches any. -/
def field? (c : ClassFile) (name descriptor : String) : Option Field :=
  c.fields.find? fun f => f.name == name && (descriptor == "" || f.descriptor == descriptor)

/-- The first method with a name and descriptor; the empty descriptor matches any. -/
def method? (c : ClassFile) (name descriptor : String) : Option Method :=
  c.methods.find? fun m => m.name == name && (descriptor == "" || m.descriptor == descriptor)

def attribute? (c : ClassFile) (name : String) : Option Attribute :=
  Attribute.find? c.attributes name

/-- The name of the source file, or the empty string. -/
def sourceFile (c : ClassFile) : String :=
  match (c.attribute? "SourceFile").map Attribute.info with
  | some [a, b] =>
    match c.pool.utf8 (Bytes.toU2 a b) with
    | .ok name => name
    | .error _ => ""
  | _ => ""

end ClassFile

end Jvm
