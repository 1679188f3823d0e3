import Jvm.Machine.Class

/-!
# The heap

Instances and arrays, numbered in the order of their allocation. Nothing is ever collected.
-/

namespace Jvm

structure Instance where
  cls : Class
  fields : List Value

/-- An array of values with the descriptor of its elements. -/
structure ArrayObject where
  component : String
  elements : List Value
  deriving Repr, DecidableEq

structure Heap where
  instances : Array Instance
  arrays : Array ArrayObject
  /-- How many string objects have been made. -/
  freshStrings : Nat

def stringName : String := "java/lang/String"

def arrayName (component : String) : String := "[" ++ component

namespace Heap

def empty : Heap := ⟨#[], #[], 0⟩

def newInstance (h : Heap) (c : Class) : Reference × Heap :=
  (.object h.instances.size,
    { h with instances := h.instances.push ⟨c, c.instanceDefaults⟩ })

def newArray (h : Heap) (component : String) (elements : List Value) : Reference × Heap :=
  (.array h.arrays.size, { h with arrays := h.arrays.push ⟨component, elements⟩ })

def newString (h : Heap) (content : String) : Reference × Heap :=
  (.string content (.fresh h.freshStrings), { h with freshStrings := h.freshStrings + 1 })

def instance? (h : Heap) : Reference → Option Instance
  | .object n => h.instances[n]?
  | _ => none

def array? (h : Heap) : Reference → Option ArrayObject
  | .array n => h.arrays[n]?
  | _ => none

def className (h : Heap) : Reference → String
  | .object n => ((h.instances[n]?).map fun i => i.cls.name).getD ""
  | .array n => arrayName (((h.arrays[n]?).map ArrayObject.component).getD "")
  | .string .. => stringName

/-- The field of an instance, by the class that declares it. -/
def getField? (h : Heap) (r : Reference) (key : MemberRef) : Option Value := do
  let i ← h.instance? r
  let slot ← i.cls.instanceSlot? key
  i.fields[slot]?

/-- Changes a field of an instance; `none` when it has no such field. -/
def setField? (h : Heap) (r : Reference) (key : MemberRef) (v : Value) : Option Heap :=
  match r with
  | .object n => do
    let i ← h.instances[n]?
    let slot ← i.cls.instanceSlot? key
    return { h with instances := h.instances.setIfInBounds n { i with fields := i.fields.set slot v } }
  | _ => none

/-- The identity hash of an instance: its number, counted from 1. -/
def identityHash : Reference → Int32
  | .object n => Int32.ofNat (n + 1)
  | _ => 0

def text (h : Heap) (v : Value) : String :=
  match v with
  | .none => "none"
  | .int n => "int " ++ toString n.toInt
  | .long n => "long " ++ toString n.toInt
  | .float bits => "float " ++ Float.Style.general.render .double (Float.widen bits).toNat
  | .double bits => "double " ++ Float.Style.general.render .double bits.toNat
  | .null => "null"
  | .reference r => "ref " ++ h.className r

end Heap

end Jvm
