import Mathlib.Data.List.Induction
import Jvm.Machine.SlotTables
import Jvm.Proofs.Faults
import Jvm.Proofs.Machine.FieldLayout

/-!
# What linking works out

The tables that linking builds field by field are the layout of a class: a field has the slot of its
last declaration among the fields that were entered, and a slot starts as the field in it does.
-/

namespace Jvm

namespace SlotTables

/-! ### Keys in the order of their slots -/

/-- The table of keys that were entered in this order, latest first. -/
def numbered (keys : List MemberRef) : List (MemberRef × Nat) := keys.zipIdx.reverse

theorem numbered_append_singleton (keys : List MemberRef) (key : MemberRef) :
    numbered (keys ++ [key]) = (key, keys.length) :: numbered keys := by
  simp [numbered, List.zipIdx_append]

theorem lookup_numbered (keys : List MemberRef) (key : MemberRef) :
    (numbered keys).lookup key = lastIndexOf? keys key := by
  induction keys using List.reverseRecOn with
  | nil => rfl
  | append_singleton keys last ih =>
    rw [numbered_append_singleton, List.lookup_cons, ih]
    by_cases hlast : key = last
    · subst hlast
      simp [lastIndexOf?, List.idxOf?_cons]
    · have hne : last ∉ [key] := by simpa [eq_comm] using hlast
      have hbeq : (key == last) = false := beq_eq_false_iff_ne.mpr hlast
      rw [hbeq, lastIndexOf?_append_left (by simpa using hlast)]

/-- The tables of fields whose keys were entered in this order. -/
def ofKeys (instanceKeys staticKeys : List MemberRef) (statics : List Value) : SlotTables where
  instanceSlots := numbered instanceKeys
  instanceDefaults := instanceKeys.map fun key => Value.zeroOf key.descriptor
  staticSlots := numbered staticKeys
  statics := statics

/-! ### Fields that are entered -/

variable {file : ClassFile} {instanceKeys staticKeys : List MemberRef} {statics : List Value}

theorem enter_instance {f : Field} (h : f.isStatic = false) :
    enter file (ofKeys instanceKeys staticKeys statics) f =
      .ok (ofKeys (instanceKeys ++ [Class.fieldKey file f]) staticKeys statics) := by
  simp [enter, h, ofKeys, numbered_append_singleton, Class.fieldKey, pure, Except.pure]

theorem enter_static {f : Field} (h : f.isStatic = true)
    (hlength : statics.length = staticKeys.length) :
    enter file (ofKeys instanceKeys staticKeys statics) f =
      (Class.staticInitial file statics.length f).map fun v =>
        ofKeys instanceKeys (staticKeys ++ [Class.fieldKey file f]) (statics ++ [v]) := by
  simp only [enter, h, if_true, ofKeys, numbered_append_singleton, hlength]
  cases Class.staticInitial file staticKeys.length f <;> rfl

/-- Fields are entered behind those that are there. -/
theorem foldlM_enter (fields : List Field) (hlength : statics.length = staticKeys.length) :
    fields.foldlM (enter file) (ofKeys instanceKeys staticKeys statics) =
      (Class.staticInitialsFrom file statics.length (fields.filter Field.isStatic)).map fun vs =>
        ofKeys
          (instanceKeys ++ (fields.filter fun f => !f.isStatic).map (Class.fieldKey file))
          (staticKeys ++ (fields.filter Field.isStatic).map (Class.fieldKey file))
          (statics ++ vs) := by
  induction fields generalizing instanceKeys staticKeys statics with
  | nil =>
    simp only [List.filter_nil, List.map_nil, List.append_nil, Class.staticInitialsFrom]
    rw [Except.map, List.append_nil]
    rfl
  | cons f fields ih =>
    rw [List.foldlM_cons]
    cases hstatic : f.isStatic with
    | false =>
      have hown : ((f :: fields).filter fun f => !f.isStatic) =
          f :: fields.filter (!·.isStatic) := by
        simp [hstatic]
      have hother : (f :: fields).filter Field.isStatic = fields.filter Field.isStatic := by
        simp [hstatic]
      rw [enter_instance hstatic, hown, hother, List.map_cons]
      refine (ih hlength).trans ?_
      rw [List.append_assoc, List.singleton_append]
    | true =>
      have hown : (f :: fields).filter Field.isStatic = f :: fields.filter Field.isStatic := by
        simp [hstatic]
      have hother : ((f :: fields).filter fun f => !f.isStatic) = fields.filter (!·.isStatic) := by
        simp [hstatic]
      rw [enter_static hstatic hlength, hown, hother, Class.staticInitialsFrom]
      cases Class.staticInitial file statics.length f with
      | error e => rfl
      | ok v =>
        have hlength' :
            (statics ++ [v]).length = (staticKeys ++ [Class.fieldKey file f]).length := by
          simp [hlength]
        refine (ih hlength').trans ?_
        rw [List.length_append, List.length_singleton, List.map_cons]
        show _ = Except.map _ (Class.staticInitialsFrom file (statics.length + 1) _ >>= fun vs =>
          pure (v :: vs))
        cases Class.staticInitialsFrom file (statics.length + 1) (fields.filter Field.isStatic) with
        | error e => rfl
        | ok vs =>
          simp only [Except.map, List.append_assoc, List.singleton_append]
          rfl

/-- The tables of a class as its layout has them, with these initial values of its static fields. -/
def ofClass (c : Class) (statics : List Value) : SlotTables :=
  ofKeys c.instanceKeys ((Class.staticFields c.file).map (Class.fieldKey c.file)) statics

theorem link_root (file : ClassFile) :
    link file none = (Class.staticInitials file).map (ofClass ⟨file, []⟩) := by
  have hkeys : Class.instanceKeys ⟨file, []⟩ = Class.declaredInstanceKeys file := by
    simp [Class.instanceKeys]
  refine (@foldlM_enter file [] [] [] file.fields rfl).trans (congrArg (Except.map · _) ?_)
  funext statics
  rw [ofClass, hkeys]
  rfl

theorem link_below (file parent : ClassFile) (rest : List ClassFile) (inherited : List Value) :
    link file (some (ofClass ⟨parent, rest⟩ inherited)) =
      (Class.staticInitials file).map (ofClass ⟨file, parent :: rest⟩) := by
  refine (@foldlM_enter file (Class.instanceKeys ⟨parent, rest⟩) [] [] file.fields rfl).trans
    (congrArg (Except.map · _) ?_)
  funext statics
  rw [ofClass, Class.instanceKeys_cons]
  rfl

theorem map_ofClass_eq_ok {c : Class} {t : SlotTables} :
    (Class.staticInitials c.file).map (ofClass c) = .ok t ↔
      Class.staticInitials c.file = .ok t.statics ∧ t = ofClass c t.statics := by
  cases Class.staticInitials c.file with
  | error f => exact ⟨nofun, fun h => absurd h.1 nofun⟩
  | ok statics =>
    constructor
    · rintro ⟨⟩
      exact ⟨rfl, rfl⟩
    · rintro ⟨hstatics, ht⟩
      cases hstatics
      exact congrArg Except.ok ht.symm

end SlotTables

namespace Class

/-- A class is linked if the static fields of its superclasses and its own can be given their
initial values, and then its tables are those of its layout. -/
theorem slotTables_eq_ok_iff {c : Class} {t : SlotTables} :
    c.slotTables = .ok t ↔
      (∀ file ∈ c.ancestors, ∃ statics, staticInitials file = .ok statics) ∧
        staticInitials c.file = .ok t.statics ∧ t = SlotTables.ofClass c t.statics := by
  obtain ⟨file, ancestors⟩ := c
  induction ancestors generalizing file t with
  | nil =>
    rw [slotTables, SlotTables.linkFrom, SlotTables.link_root, SlotTables.map_ofClass_eq_ok]
    exact (and_iff_right nofun).symm
  | cons parent rest ih =>
    have hbelow (statics : List Value) :
        SlotTables.link file (some (SlotTables.ofClass ⟨parent, rest⟩ statics)) = .ok t ↔
          staticInitials file = .ok t.statics ∧
            t = SlotTables.ofClass ⟨file, parent :: rest⟩ t.statics := by
      rw [SlotTables.link_below, SlotTables.map_ofClass_eq_ok]
    rw [slotTables, SlotTables.linkFrom, Fault.bind_eq_ok]
    constructor
    · rintro ⟨s, hs, ht⟩
      obtain ⟨hrest, hparent, hs⟩ := (ih parent).mp hs
      rw [hs] at ht
      exact ⟨List.forall_mem_cons.mpr ⟨⟨_, hparent⟩, hrest⟩, (hbelow _).mp ht⟩
    · rintro ⟨hancestors, hfile⟩
      obtain ⟨⟨statics, hparent⟩, hrest⟩ := List.forall_mem_cons.mp hancestors
      exact ⟨.ofClass ⟨parent, rest⟩ statics, (ih parent).mpr ⟨hrest, hparent, rfl⟩,
        (hbelow _).mpr hfile⟩

/-- What is looked up in the tables of a linked class is what its layout has. -/
theorem slotTables_layout {c : Class} {t : SlotTables} (h : c.slotTables = .ok t) :
    (∀ key, t.instanceSlots.lookup key = c.instanceSlot? key) ∧
      t.instanceDefaults = c.instanceDefaults ∧
      (∀ name descriptor,
        t.staticSlots.lookup ⟨c.name, name, descriptor⟩ = c.staticSlot? name descriptor) ∧
      staticInitials c.file = .ok t.statics := by
  obtain ⟨-, hstatics, ht⟩ := slotTables_eq_ok_iff.mp h
  rw [ht]
  exact ⟨SlotTables.lookup_numbered _, rfl, fun _ _ => SlotTables.lookup_numbered _ _, hstatics⟩

theorem slotTables_eq {c : Class}
    (h : ∀ file ∈ c.ancestors, ∃ statics, staticInitials file = .ok statics) :
    c.slotTables = (staticInitials c.file).map (SlotTables.ofClass c) := by
  obtain ⟨file, _ | ⟨parent, rest⟩⟩ := c
  · exact SlotTables.link_root file
  · obtain ⟨⟨statics, hparent⟩, hrest⟩ := List.forall_mem_cons.mp h
    have hsuper : slotTables ⟨parent, rest⟩ = .ok (.ofClass ⟨parent, rest⟩ statics) :=
      slotTables_eq_ok_iff.mpr ⟨hrest, hparent, rfl⟩
    rw [slotTables] at hsuper
    rw [slotTables, SlotTables.linkFrom, hsuper]
    exact SlotTables.link_below file parent rest statics

end Class

/-- The machine adds a class, below superclasses that have been linked, with the static storage that
linking works out, or fails as linking does. -/
theorem MethodArea.link_eq_slotTables {c : Class}
    (h : ∀ file ∈ c.ancestors, ∃ statics, Class.staticInitials file = .ok statics)
    (a : MethodArea) :
    MethodArea.link c.file c.ancestors a =
      match c.slotTables with
      | .error f => (.error (.context ("linking " ++ c.name) f), a)
      | .ok t => (.ok c, a.insert { cls := c, statics := t.statics, started := false }) := by
  rw [Class.slotTables_eq h, link]
  cases Class.staticInitials c.file with
  | error f => rfl
  | ok statics => rfl

end Jvm
