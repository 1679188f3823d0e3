import Jvm.Attribute.StackMap
import Jvm.Instruction.Listing

/-!
# Attributes

An attribute keeps its raw bytes next to what they decode to, so that a class file can be written
back unchanged. The body of a `Code` attribute holds attributes of its own.
-/

namespace Jvm

structure ExceptionHandler where
  start : UInt16
  stop : UInt16
  handler : UInt16
  catchType : UInt16
  deriving Repr, DecidableEq

structure BootstrapMethod where
  reference : UInt16
  arguments : List UInt16
  deriving Repr, DecidableEq

mutual

inductive AttributeBody where
  | constantValue (index : UInt16)
  | code (code : Code)
  | stackMapTable (frames : List StackMapFrame)
  | exceptions (classes : List UInt16)
  | bootstrapMethods (methods : List BootstrapMethod)
  /-- An attribute that is not interpreted. -/
  | generic

/-- A method body, together with its linear disassembly. -/
structure Code where
  maxStack : UInt16
  maxLocals : UInt16
  bytes : Bytes
  handlers : List ExceptionHandler
  attributes : List Attribute
  listing : Listing
  listing_eq : listing = Listing.sweep bytes

structure Attribute where
  nameIndex : UInt16
  name : String
  info : Bytes
  body : AttributeBody

end

namespace Attribute

def find? (attributes : List Attribute) (name : String) : Option Attribute :=
  attributes.find? fun a => a.name == name

def code? (a : Attribute) : Option Code :=
  match a.body with
  | .code c => some c
  | _ => none

def constantValue? (a : Attribute) : Option UInt16 :=
  match a.body with
  | .constantValue i => some i
  | _ => none

def stackMap? (a : Attribute) : Option (List StackMapFrame) :=
  match a.body with
  | .stackMapTable frames => some frames
  | _ => none

/-- The name under which the body was decoded. -/
def bodyName (a : Attribute) : String :=
  match a.body with
  | .constantValue _ => "ConstantValue"
  | .code _ => "Code"
  | .stackMapTable _ => "StackMapTable"
  | .exceptions _ => "Exceptions"
  | .bootstrapMethods _ => "BootstrapMethods"
  | .generic => a.name

/-- The binary form: name, length and raw bytes. The length is written modulo 2 ^ 32. -/
def encode (a : Attribute) : Bytes :=
  Bytes.ofU2 a.nameIndex ++ Bytes.ofU4 (UInt32.ofNat a.info.length) ++ a.info

/-- The binary form of a counted list. The count is written modulo 65536. -/
def encodeAll (attributes : List Attribute) : Bytes :=
  Bytes.ofU2 (UInt16.ofNat attributes.length) ++ attributes.flatMap encode

end Attribute

namespace Code

def make (maxStack maxLocals : UInt16) (bytes : Bytes) (handlers : List ExceptionHandler)
    (attributes : List Attribute) : Code :=
  { maxStack, maxLocals, bytes, handlers, attributes
    listing := Listing.sweep bytes
    listing_eq := rfl }

/-- The instruction at `pc`, if the sweep reached it. -/
def at? (c : Code) (pc : Int) : Option Instruction := c.listing.at? pc

def stackMap? (c : Code) : Option (List StackMapFrame) :=
  (Attribute.find? c.attributes "StackMapTable").bind Attribute.stackMap?

end Code

end Jvm
