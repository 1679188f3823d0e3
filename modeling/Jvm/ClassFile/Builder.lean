import Jvm.ClassFile.Parser
import Jvm.ClassFile.Writer
import Jvm.Text.Hex

/-!
# Building class files

A builder assembles a class file in memory. Asking for a constant returns the index of an existing
entry when one was already asked for under the same key, so code bytes can embed indices as they
are written. Keys are texts: two requests whose keys coincide share one entry.
-/

namespace Jvm

structure Builder where
  major : UInt16
  minor : UInt16
  flags : UInt16
  thisClass : UInt16
  superClass : UInt16
  slots : Array (Option Constant)
  interned : List (String × UInt16)
  interfaces : Array UInt16
  fields : Array Field
  methods : Array Method
  attributes : Array Attribute

namespace Builder

/-- A step that returns the index of a constant. -/
abbrev Interning := StateM Builder UInt16

/-- The index of the entry with a key, which is appended if there is none yet. Indices wrap at
65536. -/
def intern (key : String) (entry : Constant) : Interning := fun b =>
  match b.interned.lookup key with
  | some index => (index, b)
  | none =>
    let index := UInt16.ofNat b.slots.size
    let slots := b.slots.push (some entry)
    let slots := if entry.isWide then slots.push none else slots
    (index, { b with slots, interned := (key, index) :: b.interned })

/-! ### Constants -/

def utf8 (s : String) : Interning := intern ("utf8:" ++ s) (.utf8 s none)

def class_ (name : String) : Interning := do
  let nameIndex ← utf8 name
  intern ("class:" ++ name) (.classRef nameIndex)

def string (s : String) : Interning := do
  let index ← utf8 s
  intern ("string:" ++ s) (.string index)

def integer (v : Int32) : Interning := intern ("int:" ++ toString v.toInt) (.integer v)

/-- A float constant, by its bits. -/
def float (bits : UInt32) : Interning :=
  intern ("float:" ++ Text.Hex.lower 1 bits.toNat) (.float bits)

def long (v : Int64) : Interning := intern ("long:" ++ toString v.toInt) (.long v)

/-- A double constant, by its bits. -/
def double (bits : UInt64) : Interning :=
  intern ("double:" ++ Text.Hex.lower 1 bits.toNat) (.double bits)

def nameAndType (name descriptor : String) : Interning := do
  let i ← utf8 name
  let j ← utf8 descriptor
  intern ("nat:" ++ name ++ ":" ++ descriptor) (.nameAndType i j)

def fieldref (r : MemberRef) : Interning := do
  let i ← class_ r.className
  let j ← nameAndType r.name r.descriptor
  intern ("field:" ++ r.className ++ "." ++ r.name ++ ":" ++ r.descriptor) (.fieldref i j)

def methodref (r : MemberRef) : Interning := do
  let i ← class_ r.className
  let j ← nameAndType r.name r.descriptor
  intern ("method:" ++ r.text) (.methodref i j)

def interfaceMethodref (r : MemberRef) : Interning := do
  let i ← class_ r.className
  let j ← nameAndType r.name r.descriptor
  intern ("imethod:" ++ r.text) (.interfaceMethodref i j)

/-! ### The class -/

def empty (flags : UInt16) : Builder where
  major := 52
  minor := 0
  flags := flags
  thisClass := 0
  superClass := 0
  slots := #[none]
  interned := []
  interfaces := #[]
  fields := #[]
  methods := #[]
  attributes := #[]

/-- Starts a class. The empty superclass name makes a root class. -/
def new (name superName : String) (flags : UInt16) : Builder :=
  let (thisClass, b) := class_ name (empty flags)
  let b := { b with thisClass }
  if superName = "" then b
  else
    let (superClass, b) := class_ superName b
    { b with superClass }

def version (b : Builder) (major minor : UInt16) : Builder := { b with major, minor }

def implementing (b : Builder) (name : String) : Builder :=
  let (index, b) := class_ name b
  { b with interfaces := b.interfaces.push index }

def implements (b : Builder) (names : List String) : Builder := names.foldl implementing b

def field (b : Builder) (flags : UInt16) (name descriptor : String) : Builder :=
  let (nameIndex, b) := utf8 name b
  let (descriptorIndex, b) := utf8 descriptor b
  { b with fields := b.fields.push { flags, nameIndex, descriptorIndex, attributes := [] } }

def rawAttribute (nameIndex : UInt16) (info : Bytes) : Attribute :=
  { nameIndex, name := "", info, body := .generic }

def constantField (b : Builder) (flags : UInt16) (name descriptor : String) (value : UInt16) :
    Builder :=
  let (nameIndex, b) := utf8 name b
  let (descriptorIndex, b) := utf8 descriptor b
  let (attributeName, b) := utf8 "ConstantValue" b
  { b with
    fields := b.fields.push
      { flags := flags ||| Access.staticBit
        nameIndex, descriptorIndex
        attributes := [rawAttribute attributeName (Bytes.ofU2 value)] } }

/-- The bytes of a method body without handlers and attributes. -/
def encodeCode (maxStack maxLocals : UInt16) (code : Bytes) : Bytes :=
  Bytes.ofU2 maxStack ++ Bytes.ofU2 maxLocals ++ Bytes.ofU4 (UInt32.ofNat code.length) ++ code ++
    [0, 0, 0, 0]

/-- Adds a method. Without code it has no body, as abstract and native methods have none. -/
def method (b : Builder) (flags : UInt16) (name descriptor : String) (maxStack maxLocals : UInt16)
    (code : Option Bytes) : Builder :=
  let (nameIndex, b) := utf8 name b
  let (descriptorIndex, b) := utf8 descriptor b
  let (attributes, b) := match code with
    | none => ([], b)
    | some bytes =>
      let (attributeName, b) := utf8 "Code" b
      ([rawAttribute attributeName (encodeCode maxStack maxLocals bytes)], b)
  { b with methods := b.methods.push { flags, nameIndex, descriptorIndex, attributes } }

def classAttribute (b : Builder) (name : String) (info : Bytes) : Builder :=
  let (nameIndex, b) := utf8 name b
  { b with attributes := b.attributes.push (rawAttribute nameIndex info) }

/-- The class file as assembled, without resolved names. -/
def classFile (b : Builder) : ClassFile where
  minor := b.minor
  major := b.major
  pool := ⟨b.slots⟩
  flags := b.flags
  thisClass := b.thisClass
  superClass := b.superClass
  interfaces := b.interfaces.toList
  fields := b.fields.toList
  methods := b.methods.toList
  attributes := b.attributes.toList

def bytes (b : Builder) : Except Fault Bytes := b.classFile.encode

/-- The class file written out and read back. -/
def build (b : Builder) : Except Fault ClassFile := do ClassFile.parse (← b.bytes)

end Builder

end Jvm
