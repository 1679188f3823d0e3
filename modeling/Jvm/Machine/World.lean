import Jvm.Machine.Frame
import Jvm.Machine.Heap
import Jvm.Machine.Resolution

/-!
# The world

Everything that the calls of a runtime share: the loaded classes, the heap, the canonical strings,
and the record of stores into local slots. Natives act on the world; the code of a method acts on the
world and on its own frame, which together are a `Scene`.
-/

namespace Jvm

/-- A store into a local slot that an observer was told about. Binding arguments to a new frame is
none. -/
structure Store where
  /-- The number of the call whose frame was stored into. -/
  serial : Nat
  label : String
  slot : Nat
  value : Value
  /-- The number of values on the operand stack of the frame after the store. -/
  stackDepth : Nat
  /-- The number of frames of the thread. -/
  depth : Nat
  deriving Repr, DecidableEq

/-- What calls share. -/
structure World where
  area : MethodArea
  heap : Heap
  /-- The serial of the canonical string object of each content that has one. -/
  strings : List (String × Nat)
  /-- The stores that an observer was told about, latest first. -/
  stores : List Store
  /-- How many frames have been made. -/
  calls : Nat

namespace World

def empty : World := ⟨.empty, .empty, [], [], 0⟩

@[inline] def onArea {α : Type} (m : Effect MethodArea α) : Effect World α :=
  Effect.zoom World.area (fun area w => { w with area }) m

def newInstance (c : Class) : Effect World Reference := fun w =>
  let (r, heap) := w.heap.newInstance c
  (.ok r, { w with heap })

def newArray (component : String) (elements : List Value) : Effect World Reference := fun w =>
  let (r, heap) := w.heap.newArray component elements
  (.ok r, { w with heap })

def newString (content : String) : Effect World Reference := fun w =>
  let (r, heap) := w.heap.newString content
  (.ok r, { w with heap })

/-- The canonical string object of a content, which is made when it is first asked for. -/
def intern (content : String) : Effect World Reference := fun w =>
  match w.strings.lookup content with
  | some serial => (.ok (.string content (.fresh serial)), w)
  | none =>
    let (r, heap) := w.heap.newString content
    (.ok r, { w with heap, strings := (content, w.heap.freshStrings) :: w.strings })

/-- The canonical string objects of contents, in order. -/
def internAll : List String → Effect World (List Reference)
  | [] => return []
  | content :: rest => do
    let r ← intern content
    let rs ← internAll rest
    return r :: rs

end World

structure Scene where
  frame : Frame
  world : World

namespace Scene

@[inline] def onFrame {α : Type} (m : Effect Frame α) : Effect Scene α :=
  Effect.zoom Scene.frame (fun frame s => { s with frame }) m

@[inline] def onWorld {α : Type} (m : Effect World α) : Effect Scene α :=
  Effect.zoom Scene.world (fun world s => { s with world }) m

@[inline] def onArea {α : Type} (m : Effect MethodArea α) : Effect Scene α :=
  onWorld (World.onArea m)

/-- Stores into a local slot, and tells the observer of the frame if it has one. -/
def store (depth : Nat) (index : Nat) (v : Value) : Effect Scene Unit := fun s =>
  match Frame.setLocal index v s.frame with
  | (.error f, frame) => (.error f, { s with frame })
  | (.ok (), frame) =>
    if frame.observed then
      let record : Store :=
        { serial := frame.serial, label := frame.label, slot := index, value := v
          stackDepth := frame.stackDepth, depth }
      (.ok (), { s with frame, world := { s.world with stores := record :: s.world.stores } })
    else (.ok (), { s with frame })

end Scene

end Jvm
