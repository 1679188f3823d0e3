import Jvm.Machine.Runtime
import Jvm.Proofs.Machine.Typing

/-!
# Fields do not alias

A field is known by the class that declares it, its name and its descriptor. The slots of a class
tell all of these apart, its own fields and those of its superclasses, and a field keeps the slot
that it has in the superclass. So a field reads as what was last stored under exactly its key, and
until then as its default, whatever other fields of the same name there are.
-/

namespace Jvm

/-! ### The last position of an element -/

section

variable {α : Type} [BEq α] [LawfulBEq α] {as bs : List α} {a b : α} {i : Nat}

theorem exists_lastIndexOf?_iff : (∃ i, lastIndexOf? as a = some i) ↔ a ∈ as := by
  rw [← Option.isSome_iff_exists, lastIndexOf?, Option.isSome_map, List.isSome_idxOf?,
    List.mem_reverse]

theorem lastIndexOf?_injective (ha : lastIndexOf? as a = some i) (hb : lastIndexOf? as b = some i) :
    a = b := by
  have hboth := getElem?_of_lastIndexOf? ha
  rw [getElem?_of_lastIndexOf? hb] at hboth
  exact (Option.some.inj hboth).symm

theorem lastIndexOf?_lt (h : lastIndexOf? as a = some i) : i < as.length :=
  (List.getElem?_eq_some_iff.mp (getElem?_of_lastIndexOf? h)).1

theorem lastIndexOf?_append_left (h : a ∉ bs) : lastIndexOf? (as ++ bs) a = lastIndexOf? as a := by
  have hnone : bs.reverse.findIdx? (· == a) = none :=
    List.idxOf?_eq_none_iff.mpr fun hmem => h (List.mem_reverse.mp hmem)
  simp only [lastIndexOf?, List.reverse_append, List.idxOf?, List.findIdx?_append, hnone,
    Option.none_or, Option.map_map]
  congr 1
  funext j
  simp only [Function.comp_apply, List.length_append, List.length_reverse]
  omega

end

/-! ### Layouts -/

namespace Class

theorem map_file_lineage (c : Class) : c.lineage.map Class.file = c.file :: c.ancestors := by
  obtain ⟨file, ancestors⟩ := c
  simp only [lineage]
  induction ancestors generalizing file with
  | nil => rfl
  | cons parent rest ih => rw [lineageFrom, List.map_cons, ih]

theorem mem_declaredInstanceKeys {file : ClassFile} {key : MemberRef} :
    key ∈ declaredInstanceKeys file ↔
      ∃ f ∈ file.fields, f.isStatic = false ∧ key = ⟨file.name, f.name, f.descriptor⟩ := by
  simp only [declaredInstanceKeys, List.mem_map, List.mem_filter, Bool.not_eq_true', fieldKey,
    and_assoc, @eq_comm _ key]

theorem mem_instanceKeys {c : Class} {key : MemberRef} :
    key ∈ c.instanceKeys ↔ ∃ k ∈ c.lineage, ∃ f ∈ k.file.fields,
      f.isStatic = false ∧ key = ⟨k.name, f.name, f.descriptor⟩ := by
  rw [instanceKeys, List.mem_flatMap, ← map_file_lineage]
  constructor
  · rintro ⟨file, hfile, hkey⟩
    obtain ⟨k, hk, rfl⟩ := List.mem_map.mp (List.mem_reverse.mp hfile)
    exact ⟨k, hk, mem_declaredInstanceKeys.mp hkey⟩
  · rintro ⟨k, hk, hkey⟩
    exact ⟨k.file, List.mem_reverse.mpr (List.mem_map_of_mem hk),
      mem_declaredInstanceKeys.mpr hkey⟩

theorem instanceKeys_cons (file parent : ClassFile) (rest : List ClassFile) :
    instanceKeys ⟨file, parent :: rest⟩ =
      instanceKeys ⟨parent, rest⟩ ++ declaredInstanceKeys file := by
  simp [instanceKeys]

/-- A field keeps the slot that it has in a superclass, if no name comes twice on the way up. -/
theorem instanceSlot?_inherited {c k : Class} (hnames : (c.lineage.map Class.name).Nodup)
    (hk : k ∈ c.lineage) {key : MemberRef} {slot : Nat} (hslot : k.instanceSlot? key = some slot) :
    c.instanceSlot? key = some slot := by
  obtain ⟨file, ancestors⟩ := c
  induction ancestors generalizing file with
  | nil =>
    obtain rfl := List.mem_singleton.mp hk
    exact hslot
  | cons parent rest ih =>
    rcases List.mem_cons.mp hk with rfl | hk
    · exact hslot
    · obtain ⟨hfresh, hnames⟩ := List.nodup_cons.mp hnames
      have hparent : instanceSlot? ⟨parent, rest⟩ key = some slot := ih parent hnames hk
      -- The class declares its fields under its own name, which no superclass has.
      have hnew : key ∉ declaredInstanceKeys file := by
        intro hmem
        obtain ⟨f, -, -, hkey⟩ := mem_declaredInstanceKeys.mp hmem
        obtain ⟨j, hj, g, -, -, hkey'⟩ :=
          mem_instanceKeys.mp (exists_lastIndexOf?_iff.mp ⟨slot, hparent⟩)
        rw [hkey] at hkey'
        have hname : file.name = j.name := congrArg MemberRef.className hkey'
        exact hfresh (List.mem_map.mpr ⟨j, hj, hname.symm⟩)
      rw [instanceSlot?, instanceKeys_cons, lastIndexOf?_append_left hnew]
      exact hparent

/-- The slots of the instance fields of a class: exactly the fields that the class and its
superclasses declare have one, no two of them the same, all within an instance, and a field of a
superclass has the one that it has there. -/
structure InstanceLayout (c : Class) : Prop where
  keys : ∀ key, (∃ slot, c.instanceSlot? key = some slot) ↔
    ∃ k ∈ c.lineage, ∃ f ∈ k.file.fields,
      f.isStatic = false ∧ key = ⟨k.name, f.name, f.descriptor⟩
  injective : ∀ key key' slot, c.instanceSlot? key = some slot →
    c.instanceSlot? key' = some slot → key = key'
  bound : ∀ key slot, c.instanceSlot? key = some slot → slot < c.instanceDefaults.length
  inherited : ∀ k ∈ c.lineage, ∀ key slot, k.instanceSlot? key = some slot →
    c.instanceSlot? key = some slot

theorem instanceLayout {c : Class} (hnames : (c.lineage.map Class.name).Nodup) :
    c.InstanceLayout where
  keys _ := exists_lastIndexOf?_iff.trans mem_instanceKeys
  injective _ _ _ := lastIndexOf?_injective
  bound _ _ hslot := by
    rw [instanceDefaults, List.length_map]
    exact lastIndexOf?_lt hslot
  inherited _ hk _ _ := instanceSlot?_inherited hnames hk

end Class

/-! ### Instances -/

abbrev FieldLog (κ : Type) := List (κ × Value)

theorem FieldLog.lookup_cons_of_ne {κ : Type} [BEq κ] [LawfulBEq κ] {k k' : κ} (h : k ≠ k')
    (v : Value) (log : FieldLog κ) : List.lookup k ((k', v) :: log) = log.lookup k := by
  have hne : (k == k') = false := beq_eq_false_iff_ne.mpr h
  rw [List.lookup_cons, hne]

namespace Heap

/-- A heap that was reached from the empty one, with the stores into instances on the way there. -/
inductive Written : Heap → FieldLog (Reference × MemberRef) → Prop where
  | empty : Written .empty []
  | newInstance {h : Heap} {log : FieldLog (Reference × MemberRef)} (hlog : Written h log)
    (c : Class) : Written (h.newInstance c).2 log
  | newArray {h : Heap} {log : FieldLog (Reference × MemberRef)} (hlog : Written h log)
    (component : String) (elements : List Value) : Written (h.newArray component elements).2 log
  | newString {h : Heap} {log : FieldLog (Reference × MemberRef)} (hlog : Written h log)
    (content : String) : Written (h.newString content).2 log
  | setField {h h' : Heap} {log : FieldLog (Reference × MemberRef)} (hlog : Written h log)
    {r : Reference} {key : MemberRef} {v : Value} (hset : h.setField? r key v = some h') :
    Written h' (((r, key), v) :: log)

variable {h h' : Heap} {log : FieldLog (Reference × MemberRef)} {r : Reference}
  {key : MemberRef} {v : Value} {n : Nat} {i : Instance}

theorem setField?_eq_some (hset : h.setField? r key v = some h') :
    ∃ n i slot, r = .object n ∧ h.instances[n]? = some i ∧ i.cls.instanceSlot? key = some slot ∧
      h'.instances = h.instances.setIfInBounds n { i with fields := i.fields.set slot v } := by
  cases r with
  | object n =>
    obtain ⟨i, hi, hset⟩ := Option.bind_eq_some_iff.mp hset
    obtain ⟨slot, hslot, hset⟩ := Option.bind_eq_some_iff.mp hset
    cases hset
    exact ⟨n, i, slot, rfl, hi, hslot, rfl⟩
  | array n => cases hset
  | string content origin => cases hset

theorem Written.lookup_new (hlog : h.Written log) (key : MemberRef) (hn : h.instances.size ≤ n) :
    log.lookup (.object n, key) = none := by
  induction hlog with
  | empty => rfl
  | newInstance hlog c ih =>
    refine ih (Nat.le_of_succ_le ?_)
    simpa [Heap.newInstance] using hn
  | newArray hlog component elements ih => exact ih hn
  | newString hlog content ih => exact ih hn
  | @setField h h' log hlog r key' v hset ih =>
    obtain ⟨m, i, slot, rfl, hi, -, hinstances⟩ := setField?_eq_some hset
    rw [hinstances, Array.size_setIfInBounds] at hn
    have hm : m < h.instances.size := (Array.getElem?_eq_some_iff.mp hi).1
    have hne : (Reference.object n, key) ≠ (Reference.object m, key') := by
      intro heq
      cases heq
      omega
    rw [FieldLog.lookup_cons_of_ne hne]
    exact ih hn

/-- An instance holds in the slot of each field what was last stored there, or the default. -/
theorem Written.fields (hlog : h.Written log) (hi : h.instances[n]? = some i) :
    i.fields.length = i.cls.instanceDefaults.length ∧
      ∀ key slot, i.cls.instanceSlot? key = some slot →
        i.fields[slot]? = some ((log.lookup (.object n, key)).getD (Value.zeroOf key.descriptor)) := by
  induction hlog generalizing i with
  | empty => cases hi
  | @newInstance h log hlog c ih =>
    rw [Heap.newInstance, Array.getElem?_push] at hi
    split at hi
    · rename_i hnew
      cases hi
      refine ⟨rfl, fun key slot hslot => ?_⟩
      have hkey : c.instanceKeys[slot]? = some key := getElem?_of_lastIndexOf? hslot
      rw [hlog.lookup_new key (Nat.le_of_eq hnew.symm)]
      simp [Class.instanceDefaults, hkey]
    · exact ih hi
  | newArray hlog component elements ih => exact ih hi
  | newString hlog content ih => exact ih hi
  | @setField h h' log hlog r key' v hset ih =>
    obtain ⟨m, old, slot', rfl, hold, hslot', hinstances⟩ := setField?_eq_some hset
    -- A store hits the same slot only if it goes to the same instance under the same key.
    by_cases hmn : m = n
    · subst hmn
      have hm : m < h.instances.size := (Array.getElem?_eq_some_iff.mp hold).1
      rw [hinstances, Array.getElem?_setIfInBounds_self_of_lt hm] at hi
      cases hi
      obtain ⟨hlength, hfields⟩ := ih hold
      refine ⟨(List.length_set ..).trans hlength, fun key slot hslot => ?_⟩
      by_cases hkey : key = key'
      · subst hkey
        obtain rfl : slot = slot' := Option.some.inj (hslot.symm.trans hslot')
        have hlt : slot < old.fields.length := by
          rw [hlength, Class.instanceDefaults, List.length_map]
          exact lastIndexOf?_lt hslot'
        rw [List.lookup_cons_self]
        exact List.getElem?_set_self hlt
      · have hne : slot' ≠ slot := fun heq => hkey (lastIndexOf?_injective hslot (heq ▸ hslot'))
        rw [FieldLog.lookup_cons_of_ne (by simpa using hkey), ← hfields key slot hslot]
        exact List.getElem?_set_ne hne
    · rw [hinstances, Array.getElem?_setIfInBounds_ne hmn] at hi
      obtain ⟨hlength, hfields⟩ := ih hi
      refine ⟨hlength, fun key slot hslot => ?_⟩
      have hne : (Reference.object n, key) ≠ (Reference.object m, key') := by
        intro heq
        cases heq
        exact hmn rfl
      rw [FieldLog.lookup_cons_of_ne hne]
      exact hfields key slot hslot

theorem Written.getField? (hlog : h.Written log) (hi : h.instance? r = some i) (key : MemberRef) :
    h.getField? r key = (i.cls.instanceSlot? key).map fun _ =>
      (log.lookup (r, key)).getD (Value.zeroOf key.descriptor) := by
  cases r with
  | object n =>
    rw [Heap.getField?, hi]
    cases hslot : i.cls.instanceSlot? key with
    | none => simp [hslot]
    | some slot => simpa [hslot] using (hlog.fields hi).2 key slot hslot
  | array n => cases hi
  | string content origin => cases hi

theorem isSome_setField? (hi : h.instance? r = some i) (key : MemberRef) (v : Value) :
    (h.setField? r key v).isSome = (i.cls.instanceSlot? key).isSome := by
  cases r with
  | object n =>
    have hi' : h.instances[n]? = some i := hi
    cases hslot : i.cls.instanceSlot? key <;> simp [setField?, hi', hslot]
  | array n => cases hi
  | string content origin => cases hi

end Heap

/-! ### Static fields -/

namespace Class

theorem exists_staticSlot?_iff {c : Class} {name descriptor : String} :
    (∃ slot, c.staticSlot? name descriptor = some slot) ↔
      ∃ f ∈ c.file.fields, f.isStatic = true ∧ f.name = name ∧ f.descriptor = descriptor := by
  simp only [staticSlot?, exists_lastIndexOf?_iff, List.mem_map, staticFields, List.mem_filter,
    fieldKey, MemberRef.mk.injEq, Class.name, true_and, and_assoc]

theorem staticFields_of_slot {c : Class} {name descriptor : String} {slot : Nat}
    (h : c.staticSlot? name descriptor = some slot) :
    ∃ f, (staticFields c.file)[slot]? = some f ∧ f.name = name ∧ f.descriptor = descriptor := by
  have hkey := getElem?_of_lastIndexOf? h
  rw [List.getElem?_map, Option.map_eq_some_iff] at hkey
  obtain ⟨f, hf, hkey⟩ := hkey
  exact ⟨f, hf, congrArg MemberRef.name hkey, congrArg MemberRef.descriptor hkey⟩

theorem staticInitialsFrom_getElem? {file : ClassFile} {start slot : Nat} {fields : List Field}
    {vs : List Value} (h : staticInitialsFrom file start fields = .ok vs) {f : Field}
    (hf : fields[slot]? = some f) :
    ∃ initial, staticInitial file (start + slot) f = .ok initial ∧ vs[slot]? = some initial := by
  induction fields generalizing start slot vs with
  | nil => cases hf
  | cons g rest ih =>
    obtain ⟨v, vs', hv, hvs, rfl⟩ := staticInitialsFrom_cons_eq_ok h
    cases slot with
    | zero =>
      cases hf
      exact ⟨v, hv, rfl⟩
    | succ slot =>
      obtain ⟨initial, hinitial, hget⟩ := ih hvs hf
      refine ⟨initial, ?_, hget⟩
      rw [← hinitial]
      congr 1
      omega

end Class

namespace MethodArea

/-- A method area that was reached from the empty one, with the stores into static fields on the way
there. -/
inductive Written (env : Environment) : MethodArea → FieldLog MemberRef → Prop where
  | empty : Written env .empty []
  | load {a : MethodArea} {log : FieldLog MemberRef} (hlog : Written env a log) (name : String) :
    Written env (env.loader.ensure name a).2 log
  | start {a : MethodArea} {log : FieldLog MemberRef} (hlog : Written env a log) {c : Class}
    (hclass : a.class? c.name = some c) : Written env (env.initStep c a).2 log
  | setStatic {a b : MethodArea} {log : FieldLog MemberRef} (hlog : Written env a log) {c : Class}
    (hclass : a.class? c.name = some c) {name descriptor : String} {v : Value}
    (hset : a.setStatic c name descriptor v = .ok b) :
    Written env b ((⟨c.name, name, descriptor⟩, v) :: log)

variable {env : Environment} {a : MethodArea} {log : FieldLog MemberRef} {e : LoadedClass}
  {name : String}

theorem Written.evolves (hlog : a.Written env log) : Evolves env .empty a := by
  induction hlog with
  | empty => exact .refl env _
  | load hlog name ih => exact ih.step (.load name)
  | start hlog hclass ih => exact ih.step (.start hclass)
  | setStatic hlog hclass hset ih => exact ih.step (.write hset)

theorem Written.linked (hlog : a.Written env log) : a.Linked := hlog.evolves.linked .empty

/-- The static storage of a class holds what was last stored under each of its names, over what it
started with. -/
def Holds (e : LoadedClass) (log : FieldLog MemberRef) : Prop :=
  ∃ initials, Class.staticInitials e.cls.file = .ok initials ∧
    e.statics.length = initials.length ∧
    ∀ name descriptor slot initial, e.cls.staticSlot? name descriptor = some slot →
      initials[slot]? = some initial →
      e.statics[slot]? = some ((log.lookup ⟨e.cls.name, name, descriptor⟩).getD initial)

theorem Written.lookup_new (hlog : a.Written env log) (hnew : a.entry? name = none)
    (field descriptor : String) : log.lookup ⟨name, field, descriptor⟩ = none := by
  have hbefore : ∀ {a b : MethodArea} {log : FieldLog MemberRef}, Written env a log →
      Operation env a b → b.entry? name = none → a.entry? name = none := by
    intro a b log hlog hop hnone
    by_contra hsome
    obtain ⟨e, he⟩ := Option.ne_none_iff_exists'.mp hsome
    obtain ⟨e', he', -⟩ := hop.keeps hlog.linked he
    rw [hnone] at he'
    cases he'
  induction hlog with
  | empty => rfl
  | load hlog n ih => exact ih (hbefore hlog (.load n) hnew)
  | start hlog hclass ih => exact ih (hbefore hlog (.start hclass) hnew)
  | @setStatic a b log hlog c hclass n d v hset ih =>
    have hold := hbefore hlog (.write hset) hnew
    have hne : (⟨name, field, descriptor⟩ : MemberRef) ≠ ⟨c.name, n, d⟩ := by
      intro heq
      cases heq
      rw [class?_eq_none_iff.mpr hold] at hclass
      cases hclass
    rw [FieldLog.lookup_cons_of_ne hne]
    exact ih hold

theorem Holds.stored (hholds : Holds e log) {field descriptor : String} {slot : Nat} {v : Value}
    (hslot : e.cls.staticSlot? field descriptor = some slot) :
    Holds (stored slot v e) ((⟨e.cls.name, field, descriptor⟩, v) :: log) := by
  obtain ⟨initials, hinitials, hlength, hfields⟩ := hholds
  refine ⟨initials, hinitials, (List.length_set ..).trans hlength, ?_⟩
  intro field' descriptor' slot' initial hslot' hinitial
  have hlt : slot' < e.statics.length :=
    hlength ▸ (List.getElem?_eq_some_iff.mp hinitial).1
  by_cases hkey : (⟨e.cls.name, field', descriptor'⟩ : MemberRef) = ⟨e.cls.name, field, descriptor⟩
  · cases hkey
    obtain rfl : slot' = slot := Option.some.inj (hslot'.symm.trans hslot)
    rw [cls_stored, List.lookup_cons_self]
    exact List.getElem?_set_self hlt
  · have hne : slot ≠ slot' := fun heq => hkey (lastIndexOf?_injective hslot' (heq ▸ hslot))
    rw [cls_stored, FieldLog.lookup_cons_of_ne hkey,
      ← hfields field' descriptor' slot' initial hslot' hinitial]
    exact List.getElem?_set_ne hne

theorem Written.holds (hlog : a.Written env log) (he : a.entry? name = some e) : Holds e log := by
  induction hlog generalizing e with
  | empty => cases he
  | @load a log hlog n ih =>
    cases hold : a.entry? name with
    | some e₀ =>
      rw [(env.loader.ensure_extended n a).keeps hold] at he
      cases he
      exact ih hold
    | none =>
      rcases (env.loader.ensure_extended n a).fresh he with hbefore | hfresh
      · exact ih hbefore
      · refine ⟨e.statics, hfresh.statics, rfl, fun field descriptor slot initial _ hinitial => ?_⟩
        rw [name_of_entry he, hlog.lookup_new hold]
        exact hinitial
  | @start a log hlog c hclass ih =>
    obtain ⟨front, r, -, hclaimed⟩ := env.initStep_claimed hlog.linked hclass
    obtain ⟨names, -, hb⟩ := hclaimed.marked
    rw [hb, entry?_marked, Option.map_eq_some_iff] at he
    obtain ⟨e₀, he₀, rfl⟩ := he
    have hholds : Holds e₀ log := ih he₀
    exact hholds
  | @setStatic a b log hlog c hclass n d v hset ih =>
    obtain ⟨slot, hslot, rfl⟩ := setStatic_eq hset
    rw [entry?_modify a (cls_stored slot v), Option.map_eq_some_iff] at he
    obtain ⟨e₀, he₀, rfl⟩ := he
    obtain ⟨e₁, he₁, rfl⟩ := class?_eq_some_iff.mp hclass
    by_cases hname : e₀.cls.name = e₁.cls.name
    · rw [← hname, name_of_entry he₀, he₀] at he₁
      cases he₁
      rw [if_pos (beq_self_eq_true _)]
      exact (ih he₀).stored hslot
    · rw [if_neg (by simpa using hname)]
      obtain ⟨initials, hinitials, hlength, hfields⟩ := ih he₀
      refine ⟨initials, hinitials, hlength, fun field descriptor slot' initial hslot' hinitial => ?_⟩
      have hne : (⟨e₀.cls.name, field, descriptor⟩ : MemberRef) ≠ ⟨e₁.cls.name, n, d⟩ :=
        fun heq => hname (congrArg MemberRef.className heq)
      rw [FieldLog.lookup_cons_of_ne hne]
      exact hfields field descriptor slot' initial hslot' hinitial

/-- What is known of a static field of a class: it can be read and stored into exactly if the class
itself declares it, and it reads as what was last stored there, or as the initial value of its
declaration. -/
structure StaticField (a : MethodArea) (log : FieldLog MemberRef) (c : Class)
    (name descriptor : String) : Prop where
  declared : (∃ v, a.static c name descriptor = .ok v) ↔
    ∃ f ∈ c.file.fields, f.isStatic = true ∧ f.name = name ∧ f.descriptor = descriptor
  accepts : ∀ v, (∃ b, a.setStatic c name descriptor v = .ok b) ↔
    ∃ f ∈ c.file.fields, f.isStatic = true ∧ f.name = name ∧ f.descriptor = descriptor
  reads : ∀ slot, c.staticSlot? name descriptor = some slot →
    ∃ f initial, (Class.staticFields c.file)[slot]? = some f ∧ f.name = name ∧
      f.descriptor = descriptor ∧ Class.staticInitial c.file slot f = .ok initial ∧
      a.static c name descriptor = .ok ((log.lookup ⟨c.name, name, descriptor⟩).getD initial)

theorem Written.staticField (hlog : a.Written env log) {c : Class}
    (hclass : a.class? name = some c) (field descriptor : String) :
    a.StaticField log c field descriptor where
  declared := by
    rw [← Class.exists_staticSlot?_iff]
    unfold MethodArea.static
    split <;> simp_all
  accepts v := by
    rw [← Class.exists_staticSlot?_iff]
    unfold MethodArea.setStatic
    split <;> simp_all
  reads slot hslot := by
    obtain ⟨e, he, rfl⟩ := class?_eq_some_iff.mp hclass
    obtain ⟨initials, hinitials, hlength, hfields⟩ := hlog.holds he
    obtain ⟨f, hf, hname, hdescriptor⟩ := Class.staticFields_of_slot hslot
    obtain ⟨initial, hinitial, hget⟩ := Class.staticInitialsFrom_getElem? hinitials hf
    rw [Nat.zero_add] at hinitial
    refine ⟨f, initial, hf, hname, hdescriptor, hinitial, ?_⟩
    rw [static, hslot, name_of_entry he, he]
    have hread := hfields field descriptor slot initial hslot hget
    rw [name_of_entry he] at hread
    simp [hread]

end MethodArea

/-- Whatever was loaded, started, allocated and stored: the slots of every loaded class keep its
fields and those of its superclasses apart, every instance reads each of its fields as what was last
stored under exactly this key, or as the default, and so does every class its static fields. -/
theorem fields_separate {env : Environment} {a : MethodArea} {areaLog : FieldLog MemberRef}
    {h : Heap} {heapLog : FieldLog (Reference × MemberRef)} (ha : a.Written env areaLog)
    (hh : h.Written heapLog) :
    (∀ name c, a.class? name = some c → c.InstanceLayout) ∧
    (∀ r i, h.instance? r = some i → ∀ key,
      h.getField? r key = (i.cls.instanceSlot? key).map (fun _ =>
        (heapLog.lookup (r, key)).getD (Value.zeroOf key.descriptor)) ∧
      ∀ v, (h.setField? r key v).isSome = (i.cls.instanceSlot? key).isSome) ∧
    ∀ name c, a.class? name = some c → ∀ field descriptor,
      a.StaticField areaLog c field descriptor := by
  refine ⟨fun name c hclass => ?_, fun r i hi key => ?_, fun name c hclass => ?_⟩
  · exact Class.instanceLayout (ha.linked.lineage_nodup hclass)
  · exact ⟨hh.getField? hi key, Heap.isSome_setField? hi key⟩
  · exact ha.staticField hclass

def fieldsFile (name superName : String) (fields : List Field) : ClassFile where
  minor := 0
  major := 52
  pool := ⟨#[none]⟩
  flags := 0x21
  thisClass := 0
  superClass := 0
  interfaces := []
  fields := fields
  methods := []
  attributes := []
  name := name
  superName := superName

def baseFile : ClassFile :=
  fieldsFile "Base" "" [⟨2, 0, 0, [], "id", "J"⟩, ⟨9, 0, 0, [], "count", "I"⟩]

/-- A class below it with the same two fields, and another one before them. -/
def derivedFile : ClassFile :=
  fieldsFile "Derived" "Base" [⟨2, 0, 0, [], "name", "Ljava/lang/String;"⟩,
    ⟨2, 0, 0, [], "id", "J"⟩, ⟨9, 0, 0, [], "count", "I"⟩]

def shadowing : Environment where
  loader := ⟨fun name =>
    if name = "Base" then .ok baseFile
    else if name = "Derived" then .ok derivedFile
    else .error (classNotFound name), 2⟩
  natives := .standard
  maxDepth := 5
  observed := false

theorem fields_separate_shadowing :
    let derived : Class := ⟨derivedFile, [baseFile]⟩
    ∃ (a : MethodArea) (areaLog : FieldLog MemberRef) (h : Heap)
      (heapLog : FieldLog (Reference × MemberRef)),
      a.Written shadowing areaLog ∧ h.Written heapLog ∧ a.class? "Derived" = some derived ∧
        derived.InstanceLayout ∧ derived.instanceDefaults.length = 3 ∧
        h.getField? (.object 0) ⟨"Base", "id", "J"⟩ = some (.long 7) ∧
        h.getField? (.object 0) ⟨"Derived", "id", "J"⟩ = some (.long 9) ∧
        h.getField? (.object 0) ⟨"Derived", "name", "Ljava/lang/String;"⟩ = some .null ∧
        a.static derived "count" "I" = .ok (.int 0) := by
  intro derived
  have ha : MethodArea.Written shadowing _ [(⟨"Base", "count", "I"⟩, .int 3)] :=
    .setStatic (.load .empty "Derived") (c := ⟨baseFile, []⟩) rfl rfl
  have hh : Heap.Written _ [((.object 0, ⟨"Derived", "id", "J"⟩), .long 9),
      ((.object 0, ⟨"Base", "id", "J"⟩), .long 7)] :=
    .setField (.setField (.newInstance .empty derived) rfl) rfl
  obtain ⟨hlayout, hinstances, hstatics⟩ := fields_separate ha hh
  have hread := fun key => (hinstances (.object 0) _ rfl key).1
  refine ⟨_, _, _, _, ha, hh, rfl, hlayout "Derived" derived rfl, rfl, ?_, ?_, ?_, ?_⟩
  · exact hread ⟨"Base", "id", "J"⟩
  · exact hread ⟨"Derived", "id", "J"⟩
  · exact hread ⟨"Derived", "name", "Ljava/lang/String;"⟩
  · obtain ⟨f, initial, hf, -, -, hinitial, hstatic⟩ :=
      (hstatics "Derived" derived rfl "count" "I").reads 0 rfl
    cases hf
    cases hinitial
    exact hstatic

end Jvm
