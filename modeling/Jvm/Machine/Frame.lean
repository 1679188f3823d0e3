import Jvm.Machine.Class
import Jvm.Machine.Effect

/-!
# Frames

The activation record of one method call: fixed local slots, an operand stack without a bound and
the place where execution continues once a callee returns. A wide value takes two local slots, the
second of which is empty.
-/

namespace Jvm

structure Frame where
  cls : Class
  method : Method
  code : Code
  resumePc : Nat
  slots : Array Value
  /-- The operand stack, top first. -/
  stack : List Value
  /-- The number of the call that made the frame. -/
  serial : Nat
  /-- Whether an observer is told about stores into the local slots. -/
  observed : Bool

def localOutOfBounds (detail : String) : Fault := .of .index .localOutOfBounds detail

def typeMismatch (detail : String) : Fault := .of .typeMismatch .typeMismatch detail

def nullReference (detail : String) : Fault := .of .typeMismatch .nullReference detail

def Value.expect (v : Value) (kind : Option Kind) : Except Fault Value :=
  if v.kind? = kind then .ok v
  else .error (typeMismatch
    ("have " ++ Kind.describe v.kind? ++ ", want " ++ Kind.describe kind))

namespace Frame

def methodLabel (cls : Class) (method : Method) : String := cls.name ++ "." ++ method.text

def label (f : Frame) : String := methodLabel f.cls f.method

/-- Puts arguments, the first of them numbered `i`, into slots from `slot` on. -/
def bindArguments (name : String) :
    Nat → Nat → List FieldType → List Value → Array Value → Except Fault (Array Value)
  | i, slot, t :: types, v :: values, slots =>
    if slots.size < slot + t.slots then
      .error (localOutOfBounds
        s!"parameter {i} of {name} needs slot {slot + t.slots - 1}, max_locals is {slots.size}")
    else
      bindArguments name (i + 1) (slot + t.slots) types values (slots.setIfInBounds slot v)
  | _, _, _, _, slots => .ok slots

/-- The frame of a call: the receiver, if there is one, in slot 0 and the arguments after it. -/
def make (cls : Class) (method : Method) (receiver : Option Value) (parameters : List FieldType)
    (arguments : List Value) (serial : Nat) (observed : Bool) : Except Fault Frame := do
  let name := methodLabel cls method
  match method.code? with
  | none => .error (.of .resolution .unsupportedMethodKind (name ++ " has no code"))
  | some code =>
    if arguments.length ≠ parameters.length then
      .error (typeMismatch
        s!"{name} takes {parameters.length} arguments, got {arguments.length}")
    else
      let empty := Array.replicate code.maxLocals.toNat Value.none
      let slots ← match receiver with
        | none => bindArguments name 0 0 parameters arguments empty
        | some v =>
          if empty.size = 0 then
            .error (localOutOfBounds ("no slot for the receiver of " ++ name))
          else bindArguments name 0 1 parameters arguments (empty.setIfInBounds 0 v)
      return { cls, method, code, resumePc := 0, slots, stack := [], serial, observed }

/-- The constant pool that the code of a frame refers to. -/
def pool (f : Frame) : ConstantPool := f.cls.file.pool

def stackDepth (f : Frame) : Nat := f.stack.length

/-! ### Operand stack -/

def pushed (f : Frame) (v : Value) : Frame := { f with stack := v :: f.stack }

/-- Puts what a call returned on the stack, if it returned anything. -/
def received (f : Frame) (v : Value) : Frame := if v.isPresent then f.pushed v else f

def push (v : Value) : Effect Frame Unit := Effect.update fun f => f.pushed v

def underflow (f : Frame) : Fault := .of .index .stackUnderflow f.label

def pop : Effect Frame Value := fun f =>
  match f.stack with
  | [] => (.error f.underflow, f)
  | v :: rest => (.ok v, { f with stack := rest })

def peek : Effect Frame Value := fun f =>
  match f.stack with
  | [] => (.error f.underflow, f)
  | v :: _ => (.ok v, f)

/-- Takes a value of the given kind off the stack. A value of another kind is gone, too. -/
def popKind (kind : Option Kind) : Effect Frame Value := do
  let v ← pop
  Effect.ofExcept (v.expect kind)

def popInt : Effect Frame Int32 := do
  match ← popKind (some .int) with
  | .int n => return n
  | _ => return 0

def popLong : Effect Frame Int64 := do
  match ← popKind (some .long) with
  | .long n => return n
  | _ => return 0

/-- Takes a reference off the stack; `none` when it is null. -/
def popReference : Effect Frame (Option Reference) := do
  match ← popKind (some .reference) with
  | .reference r => return some r
  | _ => return none

/-! ### Local slots -/

def noSlot (f : Frame) (index : Int) : Fault :=
  localOutOfBounds s!"slot {index}, max_locals {f.slots.size}"

def getLocal (index : Int) : Effect Frame Value := fun f =>
  if index < 0 then (.error (f.noSlot index), f)
  else match f.slots[index.toNat]? with
    | some v => (.ok v, f)
    | none => (.error (f.noSlot index), f)

/-- The content of a slot, which must be of the given kind. -/
def getLocalKind (index : Int) (kind : Option Kind) : Effect Frame Value := do
  let v ← getLocal index
  Effect.ofExcept (v.expect kind)

/-- The slots after a value was stored: a wide value empties the slot after it. -/
def storedSlots (slots : Array Value) (index : Nat) (v : Value) : Array Value :=
  let slots := slots.setIfInBounds index v
  if v.isWide then slots.setIfInBounds (index + 1) .none else slots

def setLocal (index : Int) (v : Value) : Effect Frame Unit := fun f =>
  let width : Nat := if v.isWide then 2 else 1
  if index < 0 ∨ f.slots.size < index + width then (.error (f.noSlot (index + width - 1)), f)
  else (.ok (), { f with slots := storedSlots f.slots index.toNat v })

end Frame

end Jvm
