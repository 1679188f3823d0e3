import Mathlib.Data.List.Forall2
import Mathlib.Data.List.Nodup
import Jvm.Machine.Runtime
import Jvm.Proofs.Machine.Preservation

/-!
# Values have the kinds that their places ask for

Nothing checks the code of a method before it runs, but every instruction checks the values it
takes. So operand stacks hold only values, never their absence, and the fields of instances and the
static fields of classes hold values of the kinds that their descriptors ask for, in every state
that an entry point can lead to.
-/

namespace Jvm

/-! ### Slots -/

theorem Kind.ofDescriptor?_ne_none {descriptor : String} (h : descriptor ≠ "") :
    Kind.ofDescriptor? descriptor ≠ none := by
  unfold Kind.ofDescriptor?
  split
  · rename_i hnil
    exact absurd (String.toList_eq_nil_iff.mp hnil) h
  all_goals simp

/-- A slot with this descriptor may hold this value. Where the descriptor is empty, any value
will do. -/
structure Fits (descriptor : String) (v : Value) : Prop where
  present : v.kind? ≠ none
  kind : descriptor ≠ "" → v.kind? = Kind.ofDescriptor? descriptor

theorem Value.kind?_zero (k? : Option Kind) : (Value.zero k?).kind? = some (k?.getD .int) := by
  rcases k? with _ | _ | _ | _ | _ | _ <;> rfl

theorem fits_zeroOf (descriptor : String) : Fits descriptor (Value.zeroOf descriptor) where
  present := by simp [Value.zeroOf, Value.kind?_zero]
  kind hne := by
    obtain ⟨k, hk⟩ := Option.ne_none_iff_exists'.mp (Kind.ofDescriptor?_ne_none hne)
    rw [Value.zeroOf, Value.kind?_zero, hk]
    rfl

section

variable {α β : Type} {R : α → β → Prop} {as : List α} {bs : List β} {i : Nat} {a : α}

theorem getElem?_of_forall₂ (h : List.Forall₂ R as bs) (ha : as[i]? = some a) :
    ∃ b, bs[i]? = some b ∧ R a b := by
  induction h generalizing i with
  | nil => cases ha
  | @cons a' b as bs hab h ih =>
    cases i with
    | zero =>
      cases ha
      exact ⟨b, rfl, hab⟩
    | succ i => exact ih ha

theorem forall₂_set {b : β} (h : List.Forall₂ R as bs) (ha : as[i]? = some a) (hb : R a b) :
    List.Forall₂ R as (bs.set i b) := by
  induction h generalizing i with
  | nil => exact .nil
  | @cons a' b' as bs hab h ih =>
    cases i with
    | zero =>
      cases ha
      exact .cons hb h
    | succ i => exact .cons hab (ih ha)

theorem getElem?_of_lastIndexOf? [BEq α] [LawfulBEq α] (h : lastIndexOf? as a = some i) :
    as[i]? = some a := by
  obtain ⟨j, hj, rfl⟩ := Option.map_eq_some_iff.mp h
  obtain ⟨hlt, heq, -⟩ := List.idxOf?_eq_some_iff.mp hj
  rw [List.length_reverse] at hlt
  rw [← List.getElem?_reverse hlt, ← heq]
  exact List.getElem?_eq_getElem _

end

/-! ### Layouts -/

namespace Class

def instanceDescriptors (c : Class) : List String := c.instanceKeys.map MemberRef.descriptor

def staticDescriptors (file : ClassFile) : List String := (staticFields file).map Field.descriptor

theorem instanceDescriptors_of_slot {c : Class} {key : MemberRef} {slot : Nat}
    (h : c.instanceSlot? key = some slot) : c.instanceDescriptors[slot]? = some key.descriptor := by
  rw [instanceDescriptors, List.getElem?_map, getElem?_of_lastIndexOf? h]
  rfl

theorem staticDescriptors_of_slot {c : Class} {name descriptor : String} {slot : Nat}
    (h : c.staticSlot? name descriptor = some slot) :
    (staticDescriptors c.file)[slot]? = some descriptor := by
  have hkey := getElem?_of_lastIndexOf? h
  rw [List.getElem?_map, Option.map_eq_some_iff] at hkey
  obtain ⟨f, hf, hkey⟩ := hkey
  rw [staticDescriptors, List.getElem?_map, hf]
  exact congrArg some (congrArg MemberRef.descriptor hkey)

theorem instanceDefaults_fit (c : Class) :
    List.Forall₂ Fits c.instanceDescriptors c.instanceDefaults := by
  rw [instanceDescriptors, instanceDefaults, List.forall₂_map_left_iff, List.forall₂_map_right_iff,
    List.forall₂_same]
  exact fun key _ => fits_zeroOf key.descriptor

theorem staticInitial_fits {file : ClassFile} {slot : Nat} {f : Field} {v : Value}
    (h : staticInitial file slot f = .ok v) : Fits f.descriptor v := by
  have hconstant : ∀ {α : Type} {g : α → Value} {k : Kind} {r : Except Fault α},
      (∀ x, (g x).kind? = some k) → g <$> r = .ok v →
      (f.descriptor ≠ "" → Kind.ofDescriptor? f.descriptor = some k) → Fits f.descriptor v := by
    intro α g k r hg hr hk
    cases r with
    | error e => cases hr
    | ok x =>
      cases hr
      exact ⟨by simp [hg], fun hne => by rw [hg, hk hne]⟩
  unfold staticInitial at h
  dsimp only at h
  split at h
  · cases h
    exact fits_zeroOf f.descriptor
  · split at h
    · exact hconstant (fun _ => rfl) h fun _ => ‹_›
    · exact hconstant (fun _ => rfl) h fun _ => ‹_›
    · exact hconstant (fun _ => rfl) h fun _ => ‹_›
    · exact hconstant (fun _ => rfl) h fun _ => ‹_›
    · -- What is no number is read as a string.
      rename_i hint hlong hfloat hdouble
      refine hconstant (k := .reference) (fun _ => rfl) h fun hne => ?_
      obtain ⟨k, hk⟩ := Option.ne_none_iff_exists'.mp (Kind.ofDescriptor?_ne_none hne)
      cases k with
      | reference => exact hk
      | int => exact absurd hk hint
      | long => exact absurd hk hlong
      | float => exact absurd hk hfloat
      | double => exact absurd hk hdouble

theorem staticInitialsFrom_cons_eq_ok {file : ClassFile} {f : Field} {rest : List Field}
    {slot : Nat} {vs : List Value} (h : staticInitialsFrom file slot (f :: rest) = .ok vs) :
    ∃ v vs', staticInitial file slot f = .ok v ∧
      staticInitialsFrom file (slot + 1) rest = .ok vs' ∧ vs = v :: vs' := by
  rw [staticInitialsFrom] at h
  cases hv : staticInitial file slot f with
  | error e =>
    rw [hv] at h
    cases h
  | ok v =>
    cases hvs : staticInitialsFrom file (slot + 1) rest with
    | error e =>
      rw [hv, hvs] at h
      cases h
    | ok vs' =>
      rw [hv, hvs] at h
      cases h
      exact ⟨v, vs', rfl, rfl, rfl⟩

theorem staticInitialsFrom_fit {file : ClassFile} {fields : List Field} {slot : Nat}
    {vs : List Value} (h : staticInitialsFrom file slot fields = .ok vs) :
    List.Forall₂ Fits (fields.map Field.descriptor) vs := by
  induction fields generalizing slot vs with
  | nil =>
    cases h
    exact .nil
  | cons f rest ih =>
    obtain ⟨v, vs', hv, hvs, rfl⟩ := staticInitialsFrom_cons_eq_ok h
    exact .cons (staticInitial_fits hv) (ih hvs)

theorem staticInitials_fit {file : ClassFile} {vs : List Value}
    (h : staticInitials file = .ok vs) : List.Forall₂ Fits (staticDescriptors file) vs :=
  staticInitialsFrom_fit h

end Class

def Instance.Typed (i : Instance) : Prop := List.Forall₂ Fits i.cls.instanceDescriptors i.fields

def LoadedClass.Typed (e : LoadedClass) : Prop :=
  List.Forall₂ Fits (Class.staticDescriptors e.cls.file) e.statics

/-! ### Classes and heap -/

/-- All fields hold what their descriptors ask for, and arrays hold values. -/
structure Heap.Typed (a : MethodArea) (h : Heap) : Prop where
  statics : ∀ name e, a.entry? name = some e → e.Typed
  fields : ∀ i ∈ h.instances, i.Typed
  elements : ∀ array ∈ h.arrays, ∀ v ∈ array.elements, v.kind? ≠ none

namespace Heap.Typed

variable {env : Environment} {a b : MethodArea} {h h' : Heap} {c : Class} {r : Reference}
  {v : Value} {name descriptor : String}

theorem empty : Typed .empty .empty where
  statics _ _ he := nomatch he
  fields _ hi := absurd hi (by simp [Heap.empty])
  elements _ harray := absurd harray (by simp [Heap.empty])

theorem load (hold : Typed a h) (name : String) : Typed (env.loader.ensure name a).2 h where
  statics n e he := by
    rcases (env.loader.ensure_extended name a).fresh he with hbefore | hfresh
    · exact hold.statics n e hbefore
    · exact Class.staticInitials_fit hfresh.statics
  fields := hold.fields
  elements := hold.elements

theorem start (hold : Typed a h) (ha : a.Linked) (hc : a.class? c.name = some c) :
    Typed (env.initStep c a).2 h where
  statics n e he := by
    obtain ⟨front, next, -, hclaimed⟩ := env.initStep_claimed ha hc
    obtain ⟨names, -, hb⟩ := hclaimed.marked
    rw [hb, MethodArea.entry?_marked] at he
    obtain ⟨e', he', rfl⟩ := Option.map_eq_some_iff.mp he
    exact hold.statics n e' he'
  fields := hold.fields
  elements := hold.elements

theorem allocate (hold : Typed a h) (c : Class) : Typed a (h.newInstance c).2 where
  statics := hold.statics
  fields i hi := by
    rcases Array.mem_push.mp hi with hi | rfl
    · exact hold.fields i hi
    · exact c.instanceDefaults_fit
  elements := hold.elements

theorem newArray (hold : Typed a h) {component : String} {elements : List Value}
    (hvs : ∀ v ∈ elements, v.kind? ≠ none) : Typed a (h.newArray component elements).2 where
  statics := hold.statics
  fields := hold.fields
  elements array harray := by
    rcases Array.mem_push.mp harray with harray | rfl
    · exact hold.elements array harray
    · exact hvs

theorem getField? {key : MemberRef} (hold : Typed a h) (hget : h.getField? r key = some v) :
    Fits key.descriptor v := by
  obtain ⟨i, hi, hrest⟩ := Option.bind_eq_some_iff.mp hget
  obtain ⟨slot, hslot, hv⟩ := Option.bind_eq_some_iff.mp hrest
  have hmem : i ∈ h.instances := by
    cases r with
    | object n => exact Array.mem_of_getElem? hi
    | array n => cases hi
    | string content origin => cases hi
  obtain ⟨u, hu, hfits⟩ :=
    getElem?_of_forall₂ (hold.fields i hmem) (Class.instanceDescriptors_of_slot hslot)
  rw [hv] at hu
  cases hu
  exact hfits

theorem setField? {key : MemberRef} (hold : Typed a h) (hv : Fits key.descriptor v)
    (hset : h.setField? r key v = some h') : Typed a h' := by
  cases r with
  | array n => cases hset
  | string content origin => cases hset
  | object n =>
    obtain ⟨i, hi, hrest⟩ := Option.bind_eq_some_iff.mp hset
    obtain ⟨slot, hslot, hdone⟩ := Option.bind_eq_some_iff.mp hrest
    cases hdone
    refine ⟨hold.statics, fun j hj => ?_, hold.elements⟩
    rcases Array.mem_or_eq_of_mem_setIfInBounds hj with hj | rfl
    · exact hold.fields j hj
    · exact forall₂_set (hold.fields i (Array.mem_of_getElem? hi))
        (Class.instanceDescriptors_of_slot hslot) hv

theorem static (hold : Typed a h) (hc : a.class? c.name = some c)
    (hget : a.static c name descriptor = .ok v) : Fits descriptor v := by
  unfold MethodArea.static at hget
  split at hget
  · cases hget
  · rename_i slot hslot
    obtain ⟨e, he, rfl⟩ := MethodArea.class?_eq_some_iff.mp hc
    obtain ⟨u, hu, hfits⟩ :=
      getElem?_of_forall₂ (hold.statics _ e he) (Class.staticDescriptors_of_slot hslot)
    rw [he, Option.bind_some, hu] at hget
    cases hget
    exact hfits

theorem setStatic (hold : Typed a h) (hc : a.class? c.name = some c) (hv : Fits descriptor v)
    (hset : a.setStatic c name descriptor v = .ok b) : Typed b h := by
  obtain ⟨slot, hslot, rfl⟩ := MethodArea.setStatic_eq hset
  refine ⟨fun n e he => ?_, hold.fields, hold.elements⟩
  rw [MethodArea.entry?_modify a (MethodArea.cls_stored slot v), Option.map_eq_some_iff] at he
  obtain ⟨e', he', rfl⟩ := he
  have htyped := hold.statics n e' he'
  by_cases hname : e'.cls.name = c.name
  · -- The entry that is stored into is that of `c`.
    obtain ⟨e'', he'', rfl⟩ := MethodArea.class?_eq_some_iff.mp hc
    rw [← hname, MethodArea.name_of_entry he', he'] at he''
    cases he''
    rw [if_pos (by simp)]
    exact forall₂_set htyped (Class.staticDescriptors_of_slot hslot) hv
  · rwa [if_neg (by simpa using hname)]

end Heap.Typed

/-- Operand stacks hold values, and fields hold what their descriptors ask for. -/
def Invariant.typed (env : Environment) : Invariant env where
  Good v := v.kind? ≠ none
  Holds := Heap.Typed
  good hv := by simp [hv]
  load name hold := hold.load name
  start ha hc hold := hold.start ha hc
  allocate c hold := hold.allocate c
  newString _ hold := ⟨hold.statics, hold.fields, hold.elements⟩
  field hold hget := (hold.getField? hget).present
  putField hold hv hkind hset := hold.setField? ⟨hv, fun _ => hkind⟩ hset
  static hc hold hget := (hold.static hc hget).present
  putStatic hc hold hv hkind hset := hold.setStatic hc ⟨hv, fun _ => hkind⟩ hset
  element {_ _ r _ _} hold hget hv := by
    cases r with
    | array n => exact hold.elements _ (Array.mem_of_getElem? hget) _ hv
    | object n => cases hget
    | string content origin => cases hget

/-! ### States of an entry point -/

theorem MethodArea.Linked.entry?_of_mem {a : MethodArea} (ha : a.Linked) {e : LoadedClass}
    (he : e ∈ a.classes) : a.entry? e.cls.name = some e := by
  obtain ⟨c, hclass⟩ := MethodArea.exists_class?_iff.mpr (List.mem_map_of_mem he)
  obtain ⟨e', he', -⟩ := MethodArea.class?_eq_some_iff.mp hclass
  have hname : e'.cls.name = e.cls.name := MethodArea.name_of_entry he'
  have hmem : e' ∈ a.classes := List.mem_of_find?_eq_some he'
  rw [he', List.inj_on_of_nodup_map ha.distinct hmem he hname]

/-- Operand stacks hold values, and the slots of classes and instances hold values of the kinds that
their descriptors ask for. -/
structure Thread.Typed (t : Thread) : Prop where
  operands : ∀ f ∈ t.frames, ∀ v ∈ f.stack, v.kind? ≠ none
  statics : ∀ e ∈ t.world.area.classes, e.Typed
  fields : ∀ i ∈ t.world.heap.instances, i.Typed

theorem Invariant.Thread.typed {env : Environment} {t : Jvm.Thread}
    (h : (Invariant.typed env).Thread .empty t) : t.Typed where
  operands := h.frames
  statics e he :=
    h.world.holds.statics e.cls.name e ((h.world.evolves.linked .empty).entry?_of_mem he)
  fields := h.world.holds.fields

namespace Runtime

/-- The states of an entry point: the one in which its arguments have been made, and those of its
run. -/
inductive EntryState (env : Environment) (r : MemberRef) (arguments : List String) (rt : Runtime) :
    Thread → Prop where
  | prepared {result : Except Fault (List Value)} {w : World}
    (hargs : entryArguments r arguments rt.world = (result, w)) :
    EntryState env r arguments rt ⟨[], w⟩
  | running {values : List Value} {w : World} {u : Thread}
    (hargs : entryArguments r arguments rt.world = (.ok values, w))
    (hrun : Thread.RunState env r values ⟨[], w⟩ u) : EntryState env r arguments rt u

theorem EntryState.of_runEntry {env : Environment} {fuel : Nat} {r : MemberRef}
    {arguments : List String} {rt rt' : Runtime} {result : Except Fault Value}
    (h : rt.runEntry env fuel r arguments = some (result, rt')) :
    ∃ u, EntryState env r arguments rt u ∧ u.world = rt'.world := by
  unfold runEntry at h
  rcases hargs : entryArguments r arguments rt.world with ⟨f | values, w⟩
  · rw [hargs] at h
    cases h
    exact ⟨_, .prepared hargs, rfl⟩
  · rw [hargs] at h
    obtain ⟨⟨result', rt₁⟩, hrun, hdone⟩ := Option.map_eq_some_iff.mp h
    obtain ⟨⟨result₂, u⟩, hthread, hrt₁⟩ := Option.map_eq_some_iff.mp hrun
    cases hrt₁
    cases hdone
    exact ⟨u, .running hargs (.ended hthread), rfl⟩

theorem keeps_entryArguments {env : Environment} {a : MethodArea} (r : MemberRef)
    (arguments : List String) :
    Effect.Keeps ((Invariant.typed env).World a) (entryArguments r arguments) := by
  refine (Effect.Keeps.ofExcept _).bind fun d => ?_
  split
  · exact .pure trivial
  · refine (World.keeps_internAll (Invariant.typed env).keeps_intern _).bind fun strings => ?_
    have hnew : Effect.Keeps ((Invariant.typed env).World a)
        (World.newArray "Ljava/lang/String;" (strings.map Value.reference)) := by
      refine fun w hw => ⟨⟨hw.evolves, hw.holds.newArray fun v hv => ?_⟩, fun _ _ => trivial⟩
      obtain ⟨r, -, rfl⟩ := List.mem_map.mp hv
      exact nofun
    exact hnew.bind fun _ => .pure trivial
  · exact .fail _

theorem EntryState.kept {env : Environment} (hn : env.natives = .standard) {r : MemberRef}
    {arguments : List String} {rt : Runtime} {u : Thread}
    (hrt : (Invariant.typed env).World .empty rt.world) (h : EntryState env r arguments rt u) :
    (Invariant.typed env).Thread .empty u := by
  have hprepared : ∀ {result w}, entryArguments r arguments rt.world = (result, w) →
      (Invariant.typed env).Thread .empty ⟨[], w⟩ :=
    fun hargs => ⟨nofun, (keeps_entryArguments r arguments).apply hrt hargs⟩
  have hnatives := (Invariant.typed env).natives_of_standard hn
  cases h with
  | prepared hargs => exact hprepared hargs
  | running hargs hrun => exact hnatives.runState_thread .empty (hprepared hargs) hrun

theorem EntryState.typed {env : Environment} (hn : env.natives = .standard) {r : MemberRef}
    {arguments : List String} {u : Thread} (h : EntryState env r arguments .empty u) :
    u.Typed :=
  have hempty : (Invariant.typed env).World .empty World.empty := ⟨.refl env _, Heap.Typed.empty⟩
  (h.kept hn hempty).typed

/-- Whatever classes a loader has and whatever their code, every state of an entry point on a fresh
runtime, the last included, has only values on operand stacks, and in the slots of classes and
instances values of the kinds that their descriptors ask for. -/
theorem entry_typed (loader : Loader) (maxDepth : Nat) (observed : Bool) (r : MemberRef)
    (arguments : List String) :
    (∀ u, EntryState ⟨loader, .standard, maxDepth, observed⟩ r arguments .empty u → u.Typed) ∧
    ∀ fuel result rt,
      Runtime.empty.runEntry ⟨loader, .standard, maxDepth, observed⟩ fuel r arguments =
        some (result, rt) → Thread.Typed ⟨[], rt.world⟩ := by
  refine ⟨fun u hu => hu.typed rfl, fun fuel result rt hrun => ?_⟩
  obtain ⟨u, hu, hworld⟩ := EntryState.of_runEntry hrun
  have htyped := hu.typed rfl
  rw [← hworld]
  exact ⟨nofun, htyped.statics, htyped.fields⟩

/-- A class with a static `long`, which starts as 7, and a `double` in every instance. Its `main`
makes an instance and stores 1 into both. -/
def storesFile : ClassFile where
  minor := 0
  major := 52
  pool := ⟨#[none, some (.utf8 "P" none), some (.classRef 1),
    some (.utf8 "([Ljava/lang/String;)V" none), some (.utf8 "main" none),
    some (.utf8 "Code" none), some (.utf8 "s" none), some (.utf8 "J" none),
    some (.nameAndType 6 7), some (.fieldref 2 8), some (.utf8 "x" none), some (.utf8 "D" none),
    some (.fieldref 2 13), some (.nameAndType 10 11), some (.utf8 "ConstantValue" none),
    some (.long 7), none]⟩
  flags := 0x21
  thisClass := 2
  superClass := 0
  interfaces := []
  fields := [
    ⟨8, 6, 7, [⟨14, "ConstantValue", [0, 15], .constantValue 15⟩], "s", "J"⟩,
    ⟨0, 10, 11, [], "x", "D"⟩]
  methods := [
    ⟨8, 4, 3, [Thread.sampleBody 4 1
      [0xBB, 0, 2, 0x59, 0x0F, 0xB5, 0, 12, 0x57, 0x0A, 0xB3, 0, 9, 0xB1]], "main",
      mainDescriptor⟩]
  attributes := []
  name := "P"

theorem storesFile_run :
    (Runtime.empty.runEntry ⟨⟨fun _ => .ok storesFile, 1⟩, .standard, 5, false⟩ 20
      ⟨"P", "main", mainDescriptor⟩ ["a"]).map (fun (_, rt) =>
        (rt.world.area.classes.map LoadedClass.statics,
          rt.world.heap.instances.toList.map Instance.fields)) =
      some ([[.long 1]], [[.double 0x3FF0000000000000]]) := by
  decide +kernel

theorem entry_typed_stores :
    ∃ result rt, Runtime.empty.runEntry ⟨⟨fun _ => .ok storesFile, 1⟩, .standard, 5, false⟩ 20
        ⟨"P", "main", mainDescriptor⟩ ["a"] = some (result, rt) ∧
      rt.world.area.classes.map LoadedClass.statics = [[.long 1]] ∧
      rt.world.heap.instances.toList.map Instance.fields = [[.double 0x3FF0000000000000]] ∧
      Thread.Typed ⟨[], rt.world⟩ := by
  obtain ⟨⟨result, rt⟩, hrun, hends⟩ := Option.map_eq_some_iff.mp storesFile_run
  obtain ⟨hstatics, hfields⟩ := Prod.mk.inj hends
  have htyped :=
    (entry_typed ⟨fun _ => .ok storesFile, 1⟩ 5 false ⟨"P", "main", mainDescriptor⟩ ["a"]).2
  exact ⟨result, rt, hrun, hstatics, hfields, htyped 20 result rt hrun⟩

end Runtime

end Jvm
