import Jvm.Machine.Class

/-!
# Linking

How the slots of a class come about: it starts with the instance slots of its linked superclass and
enters its own fields one after the other. The slots that are looked up in a `Class` are these.
-/

namespace Jvm

/-- What linking works out for a class. Of two entries for a field the one in front counts. -/
structure SlotTables where
  instanceSlots : List (MemberRef × Nat) := []
  /-- The value with which each instance slot starts. -/
  instanceDefaults : List Value := []
  staticSlots : List (MemberRef × Nat) := []
  /-- The value with which each static slot starts. -/
  statics : List Value := []

namespace SlotTables

def enter (file : ClassFile) (t : SlotTables) (f : Field) : Except Fault SlotTables :=
  let key := Class.fieldKey file f
  if f.isStatic then do
    let v ← Class.staticInitial file t.statics.length f
    return { t with
      staticSlots := (key, t.statics.length) :: t.staticSlots
      statics := t.statics ++ [v] }
  else
    return { t with
      instanceSlots := (key, t.instanceDefaults.length) :: t.instanceSlots
      instanceDefaults := t.instanceDefaults ++ [Value.zeroOf f.descriptor] }

/-- Links a class file to its superclass, whose instance slots are taken over first. -/
def link (file : ClassFile) (super? : Option SlotTables) : Except Fault SlotTables :=
  let inherited : SlotTables :=
    match super? with
    | none => {}
    | some s => { instanceSlots := s.instanceSlots, instanceDefaults := s.instanceDefaults }
  file.fields.foldlM (enter file) inherited

/-- Links the superclasses of a class file, nearest first, and then the file itself. -/
def linkFrom (file : ClassFile) : List ClassFile → Except Fault SlotTables
  | [] => link file none
  | parent :: rest => do
    let s ← linkFrom parent rest
    link file (some s)

end SlotTables

def Class.slotTables (c : Class) : Except Fault SlotTables := SlotTables.linkFrom c.file c.ancestors

end Jvm
