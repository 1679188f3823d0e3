import Jvm.ClassFile.Basic
import Jvm.Machine.Value

/-!
# Linked classes

A class file together with the class files of its superclasses, nearest first. The layout of its
instances and of its static storage is computed from these: the fields of the root come first, and a
field is known by the class that declares it, so a subclass field never aliases one of the same name
further up.
-/

namespace Jvm

/-- The position of the last element of a list that equals `a`. -/
def lastIndexOf? {α : Type} [BEq α] (as : List α) (a : α) : Option Nat :=
  (as.reverse.idxOf? a).map fun i => as.length - 1 - i

/-- A class file below its superclasses. -/
structure Class where
  file : ClassFile
  ancestors : List ClassFile

namespace Class

def name (c : Class) : String := c.file.name

def lineageFrom (file : ClassFile) : List ClassFile → List Class
  | [] => [⟨file, []⟩]
  | parent :: rest => ⟨file, parent :: rest⟩ :: lineageFrom parent rest

/-- The class and its superclasses, nearest first. -/
def lineage (c : Class) : List Class := lineageFrom c.file c.ancestors

def super? (c : Class) : Option Class :=
  match c.ancestors with
  | [] => none
  | parent :: rest => some ⟨parent, rest⟩

def isInterface (c : Class) : Bool := c.file.isInterface

/-- Whether `other` is the class or one of its superclasses. -/
def isSubclassOf (c : Class) (other : String) : Bool := c.lineage.any fun k => k.name == other

/-- The nearest declaration of a method in the superclass chain. -/
def resolveMethod? (c : Class) (name descriptor : String) : Option (Class × Method) :=
  c.lineage.findSome? fun k => (k.file.method? name descriptor).map fun m => (k, m)

/-! ### Layout -/

def fieldKey (file : ClassFile) (f : Field) : MemberRef := ⟨file.name, f.name, f.descriptor⟩

def declaredInstanceKeys (file : ClassFile) : List MemberRef :=
  (file.fields.filter fun f => !f.isStatic).map (fieldKey file)

/-- The instance fields of the class in slot order, those of the root first. -/
def instanceKeys (c : Class) : List MemberRef :=
  (c.file :: c.ancestors).reverse.flatMap declaredInstanceKeys

/-- The slot of an instance field. Of two declarations of the same field the last counts. -/
def instanceSlot? (c : Class) (key : MemberRef) : Option Nat := lastIndexOf? c.instanceKeys key

def instanceDefaults (c : Class) : List Value :=
  c.instanceKeys.map fun key => Value.zeroOf key.descriptor

def staticFields (file : ClassFile) : List Field := file.fields.filter Field.isStatic

/-- The slot of a static field. Of two declarations of the same field the last counts. -/
def staticSlot? (c : Class) (name descriptor : String) : Option Nat :=
  lastIndexOf? ((staticFields c.file).map (fieldKey c.file)) ⟨c.name, name, descriptor⟩

/-- The initial value of the static field in a slot: its constant, or the default of its type. -/
def staticInitial (file : ClassFile) (slot : Nat) (f : Field) : Except Fault Value :=
  let index := f.constantValue
  if index = 0 then .ok (Value.zeroOf f.descriptor)
  else match Kind.ofDescriptor? f.descriptor with
    | some .int => Value.int <$> file.pool.integer index
    | some .long => Value.long <$> file.pool.long index
    | some .float => Value.float <$> file.pool.float index
    | some .double => Value.double <$> file.pool.double index
    | _ => (fun s => .reference (.string s (.staticField file.name slot))) <$> file.pool.string index

def staticInitialsFrom (file : ClassFile) : Nat → List Field → Except Fault (List Value)
  | _, [] => .ok []
  | slot, f :: rest => do
    let v ← staticInitial file slot f
    let vs ← staticInitialsFrom file (slot + 1) rest
    return v :: vs

def staticInitials (file : ClassFile) : Except Fault (List Value) :=
  staticInitialsFrom file 0 (staticFields file)

end Class

end Jvm
