import Jvm.Machine.MethodArea
import Mathlib.Logic.Relation

/-!
# Loading classes

`Loader.Loads` is the recursion of loading with no bound on its depth: look the class up, refuse a
class that is already on the way, fetch its file, load its superclass, link. A derivation is the
finite tree of these calls. Over a loader that keeps its bound every request has one, so loading
ends, whatever cycles and gaps the class files have.

Whatever is known of a load is read off its derivation: entries stay as they are and new ones are
fresh, every class hangs on the entry of its superclass, and a chain of superclasses that comes back
to itself is refused.
-/

namespace Jvm

/-! ### The method area as a table -/

namespace MethodArea

theorem name_of_entry {a : MethodArea} {name : String} {e : LoadedClass}
    (h : a.entry? name = some e) : e.cls.name = name := by
  have hname := List.find?_some h
  simpa using hname

theorem class?_eq_some_iff {a : MethodArea} {name : String} {c : Class} :
    a.class? name = some c ↔ ∃ e, a.entry? name = some e ∧ e.cls = c :=
  Option.map_eq_some_iff

theorem class?_eq_none_iff {a : MethodArea} {name : String} :
    a.class? name = none ↔ a.entry? name = none :=
  Option.map_eq_none_iff

theorem name_of_class? {a : MethodArea} {name : String} {c : Class}
    (h : a.class? name = some c) : c.name = name := by
  obtain ⟨e, hentry, rfl⟩ := class?_eq_some_iff.mp h
  exact name_of_entry hentry

theorem entry?_insert (a : MethodArea) (e : LoadedClass) (name : String) :
    MethodArea.entry? (a.insert e) name = if e.cls.name = name then some e else a.entry? name := by
  simp only [MethodArea.entry?, insert, List.find?_cons]
  by_cases h : e.cls.name = name
  · simp [h]
  · have hne : (e.cls.name == name) = false := by simpa using h
    simp only [hne, if_neg h]

theorem entry?_eq_none_iff {a : MethodArea} {name : String} :
    a.entry? name = none ↔ name ∉ a.classes.map fun e => e.cls.name := by
  simp only [MethodArea.entry?, List.find?_eq_none, beq_iff_eq, List.mem_map, not_exists, not_and]

theorem link_of_statics {file : ClassFile} {statics : List Value}
    (h : Class.staticInitials file = .ok statics) (ancestors : List ClassFile) (a : MethodArea) :
    link file ancestors a =
      (.ok ⟨file, ancestors⟩, a.insert ⟨⟨file, ancestors⟩, statics, false⟩) := by
  simp only [link, h]

/-- Linking looks at the class file only, so it gives the same answer in every area. -/
theorem link_elsewhere {file : ClassFile} {ancestors : List ClassFile} {a b : MethodArea}
    {r : Except Fault Class} (h : link file ancestors a = (r, b)) (a' : MethodArea) :
    ∃ b', link file ancestors a' = (r, b') := by
  simp only [link] at h ⊢
  split at h <;> cases h <;> exact ⟨_, rfl⟩

end MethodArea

/-! ### The recursion of loading -/

namespace Loader

theorem classFile_name {l : Loader} {name : String} {file : ClassFile}
    (h : l.classFile name = .ok file) : file.name = name := by
  unfold classFile at h
  split at h
  · split at h
    · rename_i hname
      cases h
      exact hname
    · cases h
  · split at h
    · split at h
      · rename_i hobject
        obtain ⟨builtin, hbuiltin, hbuiltinName⟩ :
            ∃ file, builtinObject = .ok file ∧ file.name = objectName := ⟨_, rfl, rfl⟩
        rw [hbuiltin] at h
        cases h
        rw [hbuiltinName, hobject]
      · cases h
    · cases h

/-- The calls that one request makes, where `pending` are the classes whose superclass is being
loaded. -/
inductive Loads (l : Loader) (a : MethodArea) :
    List String → String → Except Fault Class → MethodArea → Prop where
  | present {pending : List String} {name : String} {c : Class}
    (hclass : a.class? name = some c) : Loads l a pending name (.ok c) a
  | circular {pending : List String} {name : String} (hnew : a.class? name = none)
    (hpending : name ∈ pending) :
    Loads l a pending name
      (.error (.of .resolution .classCircularity (name ++ " is its own superclass"))) a
  | unreadable {pending : List String} {name : String} {f : Fault} (hnew : a.class? name = none)
    (hfirst : name ∉ pending) (hfile : l.classFile name = .error f) :
    Loads l a pending name (.error f) a
  | root {pending : List String} {name : String} {file : ClassFile} {r : Except Fault Class}
    {b : MethodArea} (hnew : a.class? name = none) (hfirst : name ∉ pending)
    (hfile : l.classFile name = .ok file) (hsuper : file.superName = "")
    (hlink : MethodArea.link file [] a = (r, b)) : Loads l a pending name r b
  | derived {pending : List String} {name : String} {file : ClassFile} {c : Class}
    {r : Except Fault Class} {between b : MethodArea} (hnew : a.class? name = none)
    (hfirst : name ∉ pending) (hfile : l.classFile name = .ok file) (hsuper : file.superName ≠ "")
    (hparent : Loads l a (name :: pending) file.superName (.ok c) between)
    (hlink : MethodArea.link file (c.file :: c.ancestors) between = (r, b)) :
    Loads l a pending name r b
  | parentFails {pending : List String} {name : String} {file : ClassFile} {f : Fault}
    {b : MethodArea} (hnew : a.class? name = none) (hfirst : name ∉ pending)
    (hfile : l.classFile name = .ok file) (hsuper : file.superName ≠ "")
    (hparent : Loads l a (name :: pending) file.superName (.error f) b) :
    Loads l a pending name (.error (.context (superclassContext name) f)) b

/-- At most `bound` names can be loaded. -/
def Bounded (l : Loader) : Prop :=
  ∀ names : List String, names.Nodup → (∀ name ∈ names, ∃ file, l.load name = .ok file) →
    names.length ≤ l.bound

theorem loads_of_planFrom {l : Loader} {a : MethodArea} {plan : Plan} (fuel : Nat)
    {pending : List String} {name : String} (h : l.planFrom a fuel pending name = .ok plan) :
    Loads l a pending name (plan.define a).1 (plan.define a).2 := by
  induction fuel generalizing pending name plan with
  | zero => cases h
  | succ fuel ih =>
    rw [planFrom] at h
    split at h
    · rename_i c hclass
      cases h
      exact .present hclass
    · rename_i hnew
      split at h
      · cases h
      · rename_i hpending
        have hfirst : name ∉ pending := by simpa using hpending
        split at h
        · cases h
        · rename_i file hfile
          split at h
          · rename_i hsuper
            cases h
            exact .root hnew hfirst hfile hsuper rfl
          · rename_i hsuper
            split at h
            · cases h
            · rename_i parent hparent
              cases h
              have hloads := ih hparent
              rcases hdefine : parent.define a with ⟨f | c, b⟩
              · rw [hdefine] at hloads
                simp only [Plan.define, hdefine, classFile_name hfile]
                exact .parentFails hnew hfirst hfile hsuper hloads
              · rw [hdefine] at hloads
                simp only [Plan.define, hdefine]
                exact .derived hnew hfirst hfile hsuper hloads rfl

theorem Bounded.classFile_length {l : Loader} (h : l.Bounded) {names : List String}
    (hdistinct : names.Nodup) (hfiles : ∀ name ∈ names, ∃ file, l.classFile name = .ok file) :
    names.length ≤ l.bound + 1 := by
  have hload : ∀ name ∈ names.erase objectName, ∃ file, l.load name = .ok file := by
    intro name hmem
    obtain ⟨hne, hmem⟩ := hdistinct.mem_erase_iff.mp hmem
    obtain ⟨file, hfile⟩ := hfiles name hmem
    unfold classFile at hfile
    split at hfile
    · rename_i loaded hloaded
      exact ⟨loaded, hloaded⟩
    · rw [if_neg hne] at hfile
      split at hfile <;> cases hfile
  have hlength := h _ (hdistinct.erase objectName) hload
  have herase := List.le_length_erase (l := names) (a := objectName)
  omega

theorem loads_of_planFrom_error {l : Loader} {a : MethodArea} (hbounded : l.Bounded) (fuel : Nat)
    {pending : List String} {name : String} {f : Fault}
    (hroom : l.bound + 2 ≤ pending.length + fuel) (hdistinct : pending.Nodup)
    (hfiles : ∀ n ∈ pending, ∃ file, l.classFile n = .ok file)
    (h : l.planFrom a fuel pending name = .error f) : Loads l a pending name (.error f) a := by
  induction fuel generalizing pending name f with
  | zero =>
    have hlength := hbounded.classFile_length hdistinct hfiles
    omega
  | succ fuel ih =>
    rw [planFrom] at h
    split at h
    · cases h
    · rename_i hnew
      split at h
      · rename_i hpending
        cases h
        exact .circular hnew (by simpa using hpending)
      · rename_i hpending
        have hfirst : name ∉ pending := by simpa using hpending
        split at h
        · rename_i hfile
          cases h
          exact .unreadable hnew hfirst hfile
        · rename_i file hfile
          split at h
          · cases h
          · rename_i hsuper
            split at h
            · rename_i g hparent
              cases h
              refine .parentFails hnew hfirst hfile hsuper (ih ?_ ?_ ?_ hparent)
              · simp only [List.length_cons]
                omega
              · exact List.nodup_cons.mpr ⟨hfirst, hdistinct⟩
              · intro n hn
                rcases List.mem_cons.mp hn with rfl | hn
                · exact ⟨file, hfile⟩
                · exact hfiles n hn
            · cases h

/-- A request is either refused with nothing changed, or it is the recursion. -/
theorem ensure_cases (l : Loader) (name : String) (a : MethodArea) :
    (∃ f, l.ensure name a = (.error f, a)) ∨
      Loads l a [] name (l.ensure name a).1 (l.ensure name a).2 := by
  cases hplan : l.plan a name with
  | error f =>
    refine .inl ⟨f, ?_⟩
    simp only [ensure, hplan]
  | ok plan =>
    refine .inr ?_
    simp only [ensure, hplan]
    exact loads_of_planFrom _ hplan

theorem ensure_loads {l : Loader} (h : l.Bounded) (name : String) (a : MethodArea) :
    Loads l a [] name (l.ensure name a).1 (l.ensure name a).2 := by
  cases hplan : l.plan a name with
  | error f =>
    simp only [ensure, hplan]
    exact loads_of_planFrom_error h _ (Nat.le_add_left _ _) List.nodup_nil (by simp) hplan
  | ok plan =>
    simp only [ensure, hplan]
    exact loads_of_planFrom _ hplan

end Loader

/-! ### What a load does to the area -/

/-- An entry as linking makes it. -/
structure LoadedClass.Fresh (e : LoadedClass) : Prop where
  statics : Class.staticInitials e.cls.file = .ok e.statics
  started : e.started = false

namespace MethodArea

theorem link_eq {file : ClassFile} {ancestors : List ClassFile} {a b : MethodArea}
    {r : Except Fault Class} (h : link file ancestors a = (r, b)) :
    (∃ f, r = .error f ∧ b = a) ∨
      ∃ e : LoadedClass, e.Fresh ∧ e.cls = ⟨file, ancestors⟩ ∧ r = .ok e.cls ∧
        b = a.insert e := by
  simp only [link] at h
  split at h
  · cases h
    exact .inl ⟨_, rfl, rfl⟩
  · rename_i statics hstatics
    cases h
    exact .inr ⟨⟨⟨file, ancestors⟩, statics, false⟩, ⟨hstatics, rfl⟩, rfl, rfl, rfl⟩

/-- The entries of `a` stand unchanged in `b`, and all others are fresh. -/
structure Extended (a b : MethodArea) : Prop where
  keeps : ∀ {name e}, a.entry? name = some e → b.entry? name = some e
  fresh : ∀ {name e}, b.entry? name = some e → a.entry? name = some e ∨ e.Fresh

theorem Extended.refl (a : MethodArea) : Extended a a := ⟨id, .inl⟩

theorem Extended.trans {a b c : MethodArea} (hab : Extended a b) (hbc : Extended b c) :
    Extended a c where
  keeps h := hbc.keeps (hab.keeps h)
  fresh h := by
    rcases hbc.fresh h with hb | hfresh
    · exact hab.fresh hb
    · exact .inr hfresh

theorem Extended.class? {a b : MethodArea} (h : Extended a b) {name : String} {c : Class}
    (hclass : a.class? name = some c) : b.class? name = some c := by
  obtain ⟨e, hentry, rfl⟩ := class?_eq_some_iff.mp hclass
  exact class?_eq_some_iff.mpr ⟨e, h.keeps hentry, rfl⟩

theorem Extended.insert {a : MethodArea} {e : LoadedClass} (hnew : a.entry? e.cls.name = none)
    (hfresh : e.Fresh) : Extended a (a.insert e) where
  keeps {name old} h := by
    have hne : e.cls.name ≠ name := by
      rintro rfl
      rw [hnew] at h
      cases h
    rw [entry?_insert, if_neg hne, h]
  fresh {name found} h := by
    rw [entry?_insert] at h
    split at h
    · cases h
      exact .inr hfresh
    · exact .inl h

/-- Every class is alone in its name and hangs on the entry of its superclass. -/
structure Linked (a : MethodArea) : Prop where
  distinct : (a.classes.map fun e => e.cls.name).Nodup
  super_none : ∀ {name c}, a.class? name = some c → c.file.superName = "" → c.super? = none
  super_some : ∀ {name c}, a.class? name = some c → c.file.superName ≠ "" →
    ∃ parent, c.super? = some parent ∧ a.class? c.file.superName = some parent

theorem Linked.empty : Linked .empty where
  distinct := List.nodup_nil
  super_none h := nomatch h
  super_some h := nomatch h

theorem Linked.insert {a : MethodArea} {e : LoadedClass} (h : a.Linked)
    (hnew : a.entry? e.cls.name = none) (hfresh : e.Fresh)
    (hnone : e.cls.file.superName = "" → e.cls.super? = none)
    (hsome : e.cls.file.superName ≠ "" →
      ∃ parent, e.cls.super? = some parent ∧ a.class? e.cls.file.superName = some parent) :
    (a.insert e).Linked := by
  have hextended := Extended.insert hnew hfresh
  have hcases : ∀ {name c}, (a.insert e).class? name = some c →
      c = e.cls ∨ a.class? name = some c := by
    intro name c hclass
    obtain ⟨found, hentry, rfl⟩ := class?_eq_some_iff.mp hclass
    rw [entry?_insert] at hentry
    split at hentry
    · cases hentry
      exact .inl rfl
    · exact .inr (class?_eq_some_iff.mpr ⟨found, hentry, rfl⟩)
  constructor
  · exact List.nodup_cons.mpr ⟨entry?_eq_none_iff.mp hnew, h.distinct⟩
  · intro name c hclass hsuper
    rcases hcases hclass with rfl | hold
    · exact hnone hsuper
    · exact h.super_none hold hsuper
  · intro name c hclass hsuper
    rcases hcases hclass with rfl | hold
    · obtain ⟨parent, hparent, hloaded⟩ := hsome hsuper
      exact ⟨parent, hparent, hextended.class? hloaded⟩
    · obtain ⟨parent, hparent, hloaded⟩ := h.super_some hold hsuper
      exact ⟨parent, hparent, hextended.class? hloaded⟩

theorem Linked.lineage {a : MethodArea} (h : a.Linked) {name : String} {c k : Class}
    (hclass : a.class? name = some c) (hk : k ∈ c.lineage) : a.class? k.name = some k := by
  obtain ⟨file, ancestors⟩ := c
  simp only [Class.lineage] at hk
  induction ancestors generalizing file name with
  | nil =>
    simp only [Class.lineageFrom, List.mem_singleton] at hk
    rw [hk, name_of_class? hclass, hclass]
  | cons parent rest ih =>
    simp only [Class.lineageFrom, List.mem_cons] at hk
    rcases hk with rfl | hk
    · rw [name_of_class? hclass, hclass]
    · have hsuper : file.superName ≠ "" := fun heq => nomatch h.super_none hclass heq
      obtain ⟨found, hfound, hloaded⟩ := h.super_some hclass hsuper
      cases hfound
      exact ih parent hloaded hk

end MethodArea

theorem Class.ancestors_length_of_mem_lineageFrom {k : Class} {file : ClassFile}
    {ancestors : List ClassFile} (h : k ∈ lineageFrom file ancestors) :
    k.ancestors.length ≤ ancestors.length := by
  induction ancestors generalizing file with
  | nil =>
    obtain rfl := List.mem_singleton.mp h
    exact Nat.le_refl _
  | cons parent rest ih =>
    rcases List.mem_cons.mp h with rfl | h
    · exact Nat.le_refl _
    · exact Nat.le_succ_of_le (ih h)

/-- No name comes twice in a chain of superclasses in which names tell classes apart. -/
theorem Class.lineage_names_nodup {c : Class}
    (h : ∀ k ∈ c.lineage, ∀ k' ∈ c.lineage, k.name = k'.name → k = k') :
    (c.lineage.map Class.name).Nodup := by
  obtain ⟨file, ancestors⟩ := c
  simp only [lineage] at h ⊢
  induction ancestors generalizing file with
  | nil => simp [lineageFrom]
  | cons parent rest ih =>
    simp only [lineageFrom, List.mem_cons, List.map_cons, List.nodup_cons] at h ⊢
    refine ⟨?_, ih parent fun k hk k' hk' => h k (.inr hk) k' (.inr hk')⟩
    intro hmem
    obtain ⟨k, hk, hname⟩ := List.mem_map.mp hmem
    -- The same class further up would have fewer superclasses than it has.
    have hsame := h k (.inr hk) _ (.inl rfl) hname
    have hlength := ancestors_length_of_mem_lineageFrom hk
    rw [hsame] at hlength
    simp only [List.length_cons] at hlength
    omega

theorem MethodArea.Linked.lineage_nodup {a : MethodArea} (h : a.Linked) {name : String} {c : Class}
    (hclass : a.class? name = some c) : (c.lineage.map Class.name).Nodup := by
  refine Class.lineage_names_nodup fun k hk k' hk' hname => ?_
  have hfound := h.lineage hclass hk
  rw [hname, h.lineage hclass hk'] at hfound
  exact (Option.some.inj hfound).symm

namespace Loader

theorem name_of_linked {l : Loader} {name : String} {file : ClassFile} {e : LoadedClass}
    {ancestors : List ClassFile} (hfile : l.classFile name = .ok file)
    (hcls : e.cls = ⟨file, ancestors⟩) : e.cls.name = name := by
  rw [hcls]
  exact classFile_name hfile

section

variable {l : Loader} {a b : MethodArea} {pending : List String} {name : String}
  {r : Except Fault Class}

theorem Loads.entry?_pending (h : Loads l a pending name r b) {n : String} (hn : n ∈ pending) :
    b.entry? n = a.entry? n := by
  induction h with
  | present | circular | unreadable => rfl
  | root hnew hfirst hfile hsuper hlink =>
    rcases MethodArea.link_eq hlink with ⟨f, rfl, rfl⟩ | ⟨e, hfresh, hcls, rfl, rfl⟩
    · rfl
    · rw [MethodArea.entry?_insert, if_neg]
      rintro rfl
      exact hfirst (name_of_linked hfile hcls ▸ hn)
  | derived hnew hfirst hfile hsuper hparent hlink ih =>
    have hbetween := ih (List.mem_cons_of_mem _ hn)
    rcases MethodArea.link_eq hlink with ⟨f, rfl, rfl⟩ | ⟨e, hfresh, hcls, rfl, rfl⟩
    · exact hbetween
    · rw [MethodArea.entry?_insert, if_neg, hbetween]
      rintro rfl
      exact hfirst (name_of_linked hfile hcls ▸ hn)
  | parentFails hnew hfirst hfile hsuper hparent ih => exact ih (List.mem_cons_of_mem _ hn)

/-- While its superclass is loaded, the requested class stays out of the area. -/
theorem Loads.entry?_parent {superclass : String} (hnew : a.class? name = none)
    (h : Loads l a (name :: pending) superclass r b) : b.entry? name = none := by
  rw [h.entry?_pending List.mem_cons_self]
  exact MethodArea.class?_eq_none_iff.mp hnew

theorem Loads.extended (h : Loads l a pending name r b) : a.Extended b := by
  induction h with
  | present | circular | unreadable => exact .refl a
  | root hnew hfirst hfile hsuper hlink =>
    rcases MethodArea.link_eq hlink with ⟨f, rfl, rfl⟩ | ⟨e, hfresh, hcls, rfl, rfl⟩
    · exact .refl _
    · refine .insert ?_ hfresh
      rw [name_of_linked hfile hcls]
      exact MethodArea.class?_eq_none_iff.mp hnew
  | derived hnew hfirst hfile hsuper hparent hlink ih =>
    rcases MethodArea.link_eq hlink with ⟨f, rfl, rfl⟩ | ⟨e, hfresh, hcls, rfl, rfl⟩
    · exact ih
    · refine ih.trans (.insert ?_ hfresh)
      rw [name_of_linked hfile hcls]
      exact hparent.entry?_parent hnew
  | parentFails hnew hfirst hfile hsuper hparent ih => exact ih

theorem entry?_insert_linked {n : String} {file : ClassFile} {ancestors : List ClassFile}
    {new e : LoadedClass} (hfile : l.classFile name = .ok file) (hfresh : new.Fresh)
    (hcls : new.cls = ⟨file, ancestors⟩) (he : MethodArea.entry? (a.insert new) n = some e) :
    a.entry? n = some e ∨ e.Fresh ∧ l.classFile n = .ok e.cls.file := by
  rw [MethodArea.entry?_insert] at he
  split at he
  · rename_i hname
    cases he
    rw [name_of_linked hfile hcls] at hname
    exact .inr ⟨hfresh, by rw [← hname, hfile, hcls]⟩
  · exact .inl he

theorem Loads.source (h : Loads l a pending name r b) {n : String} {e : LoadedClass}
    (he : b.entry? n = some e) : a.entry? n = some e ∨ e.Fresh ∧ l.classFile n = .ok e.cls.file := by
  induction h with
  | present | circular | unreadable => exact .inl he
  | root hnew hfirst hfile hsuper hlink =>
    rcases MethodArea.link_eq hlink with ⟨f, rfl, rfl⟩ | ⟨new, hfresh, hcls, rfl, rfl⟩
    · exact .inl he
    · exact entry?_insert_linked hfile hfresh hcls he
  | derived hnew hfirst hfile hsuper hparent hlink ih =>
    rcases MethodArea.link_eq hlink with ⟨f, rfl, rfl⟩ | ⟨new, hfresh, hcls, rfl, rfl⟩
    · exact ih he
    · rcases entry?_insert_linked hfile hfresh hcls he with hbetween | hsource
      · exact ih hbetween
      · exact .inr hsource
  | parentFails hnew hfirst hfile hsuper hparent ih => exact ih he

theorem Loads.class? {c : Class} (h : Loads l a pending name (.ok c) b) :
    b.class? name = some c := by
  cases h with
  | present hclass => exact hclass
  | root hnew hfirst hfile hsuper hlink | derived hnew hfirst hfile hsuper hparent hlink =>
    rcases MethodArea.link_eq hlink with ⟨f, hr, -⟩ | ⟨e, hfresh, hcls, hr, rfl⟩
    · cases hr
    · cases hr
      refine MethodArea.class?_eq_some_iff.mpr ⟨e, ?_, rfl⟩
      rw [MethodArea.entry?_insert, if_pos (name_of_linked hfile hcls)]

/-- A request that fails leaves no entry for its class. -/
theorem Loads.entry?_of_error {f : Fault} (h : Loads l a pending name (.error f) b) :
    b.entry? name = none := by
  cases h with
  | circular hnew | unreadable hnew => exact MethodArea.class?_eq_none_iff.mp hnew
  | root hnew hfirst hfile hsuper hlink =>
    rcases MethodArea.link_eq hlink with ⟨g, hr, rfl⟩ | ⟨e, hfresh, hcls, hr, rfl⟩
    · exact MethodArea.class?_eq_none_iff.mp hnew
    · cases hr
  | derived hnew hfirst hfile hsuper hparent hlink =>
    rcases MethodArea.link_eq hlink with ⟨g, hr, rfl⟩ | ⟨e, hfresh, hcls, hr, rfl⟩
    · exact hparent.entry?_parent hnew
    · cases hr
  | parentFails hnew hfirst hfile hsuper hparent => exact hparent.entry?_parent hnew

theorem Loads.linked (h : Loads l a pending name r b) (ha : a.Linked) : b.Linked := by
  induction h with
  | present | circular | unreadable => exact ha
  | root hnew hfirst hfile hsuper hlink =>
    rcases MethodArea.link_eq hlink with ⟨f, rfl, rfl⟩ | ⟨e, hfresh, hcls, rfl, rfl⟩
    · exact ha
    · have hname := name_of_linked hfile hcls
      refine ha.insert ?_ hfresh ?_ ?_
      · rw [hname]
        exact MethodArea.class?_eq_none_iff.mp hnew
      · intro _
        rw [hcls]
        rfl
      · intro hne
        rw [hcls] at hne
        exact absurd hsuper hne
  | derived hnew hfirst hfile hsuper hparent hlink ih =>
    rcases MethodArea.link_eq hlink with ⟨f, rfl, rfl⟩ | ⟨e, hfresh, hcls, rfl, rfl⟩
    · exact ih
    · have hname := name_of_linked hfile hcls
      refine ih.insert ?_ hfresh ?_ ?_
      · rw [hname]
        exact hparent.entry?_parent hnew
      · intro heq
        rw [hcls] at heq
        exact absurd heq hsuper
      · intro _
        rw [hcls]
        exact ⟨_, rfl, hparent.class?⟩
  | parentFails hnew hfirst hfile hsuper hparent ih => exact ih

end

/-! ### Requests -/

theorem ensure_extended (l : Loader) (name : String) (a : MethodArea) :
    a.Extended (l.ensure name a).2 := by
  rcases l.ensure_cases name a with ⟨f, hfail⟩ | hloads
  · rw [hfail]
    exact .refl a
  · exact hloads.extended

theorem ensure_source (l : Loader) (name : String) {a : MethodArea} {n : String} {e : LoadedClass}
    (he : MethodArea.entry? (l.ensure name a).2 n = some e) :
    a.entry? n = some e ∨ e.Fresh ∧ l.classFile n = .ok e.cls.file := by
  rcases l.ensure_cases name a with ⟨f, hfail⟩ | hloads
  · rw [hfail] at he
    exact .inl he
  · exact hloads.source he

theorem ensure_linked (l : Loader) (name : String) {a : MethodArea} (h : a.Linked) :
    (l.ensure name a).2.Linked := by
  rcases l.ensure_cases name a with ⟨f, hfail⟩ | hloads
  · rw [hfail]
    exact h
  · exact hloads.linked h

theorem ensure_class? {l : Loader} {name : String} {a b : MethodArea} {c : Class}
    (h : l.ensure name a = (.ok c, b)) : b.class? name = some c := by
  rcases l.ensure_cases name a with ⟨f, hfail⟩ | hloads
  · rw [hfail] at h
    cases h
  · rw [h] at hloads
    exact hloads.class?

theorem ensure_of_class? (l : Loader) {name : String} {a : MethodArea} {c : Class}
    (h : a.class? name = some c) : l.ensure name a = (.ok c, a) := by
  simp only [ensure, plan, planFrom, h, Plan.define]

/-- The area after requests made in order on an area in which nothing is loaded. -/
def areaAfter (l : Loader) (names : List String) : MethodArea :=
  names.foldl (fun a name => (l.ensure name a).2) .empty

theorem areaAfter_induction {P : MethodArea → Prop} (l : Loader) (hempty : P .empty)
    (hensure : ∀ a name, P a → P (l.ensure name a).2) (names : List String) :
    P (l.areaAfter names) := by
  have hfold : ∀ (names : List String) (a : MethodArea), P a →
      P (names.foldl (fun a name => (l.ensure name a).2) a) := by
    intro names
    induction names with
    | nil => exact fun a ha => ha
    | cons name rest ih => exact fun a ha => ih _ (hensure a name ha)
  exact hfold names .empty hempty

theorem areaAfter_linked (l : Loader) (names : List String) : (l.areaAfter names).Linked :=
  l.areaAfter_induction .empty (fun _ name h => l.ensure_linked name h) names

/-! ### The classes that names stand for -/

/-- The class that a loader has under a name: the files of the class and of its superclasses, all
of which can be linked. -/
inductive Linkable (l : Loader) : String → Class → Prop where
  | root {name : String} {file : ClassFile} {statics : List Value}
    (hfile : l.classFile name = .ok file) (hsuper : file.superName = "")
    (hstatics : Class.staticInitials file = .ok statics) : Linkable l name ⟨file, []⟩
  | derived {name : String} {file : ClassFile} {statics : List Value} {parent : Class}
    (hfile : l.classFile name = .ok file) (hsuper : file.superName ≠ "")
    (hstatics : Class.staticInitials file = .ok statics)
    (hparent : Linkable l file.superName parent) :
    Linkable l name ⟨file, parent.file :: parent.ancestors⟩

/-- Every class of the area is the class that the loader has under its name. -/
def Sources (l : Loader) (a : MethodArea) : Prop :=
  ∀ name c, a.class? name = some c → l.Linkable name c

theorem Sources.empty (l : Loader) : l.Sources .empty := fun _ _ h => nomatch h

theorem Sources.insert {l : Loader} {a : MethodArea} {e : LoadedClass} (h : l.Sources a)
    (hlinkable : l.Linkable e.cls.name e.cls) : l.Sources (a.insert e) := by
  intro name c hclass
  obtain ⟨found, hentry, rfl⟩ := MethodArea.class?_eq_some_iff.mp hclass
  rw [MethodArea.entry?_insert] at hentry
  split at hentry
  · rename_i hname
    cases hentry
    exact hname ▸ hlinkable
  · exact h name _ (MethodArea.class?_eq_some_iff.mpr ⟨found, hentry, rfl⟩)

theorem Loads.sources {l : Loader} {a b : MethodArea} {pending : List String} {name : String}
    {r : Except Fault Class} (h : Loads l a pending name r b) (ha : l.Sources a) :
    l.Sources b := by
  induction h with
  | present | circular | unreadable => exact ha
  | root hnew hfirst hfile hsuper hlink =>
    rcases MethodArea.link_eq hlink with ⟨f, rfl, rfl⟩ | ⟨e, hfresh, hcls, rfl, rfl⟩
    · exact ha
    · have hstatics := hfresh.statics
      rw [hcls] at hstatics
      refine ha.insert ?_
      rw [name_of_linked hfile hcls, hcls]
      exact .root hfile hsuper hstatics
  | derived hnew hfirst hfile hsuper hparent hlink ih =>
    rcases MethodArea.link_eq hlink with ⟨f, rfl, rfl⟩ | ⟨e, hfresh, hcls, rfl, rfl⟩
    · exact ih
    · have hstatics := hfresh.statics
      rw [hcls] at hstatics
      refine ih.insert ?_
      rw [name_of_linked hfile hcls, hcls]
      exact .derived hfile hsuper hstatics (ih _ _ hparent.class?)
  | parentFails hnew hfirst hfile hsuper hparent ih => exact ih

theorem ensure_sources (l : Loader) (name : String) {a : MethodArea} (h : l.Sources a) :
    l.Sources (l.ensure name a).2 := by
  rcases l.ensure_cases name a with ⟨f, hfail⟩ | hloads
  · rw [hfail]
    exact h
  · exact hloads.sources h

/-- Every entry of the area is the class that the loader has under its name, and fresh. -/
def Supplies (l : Loader) (a : MethodArea) : Prop :=
  ∀ name e, a.entry? name = some e → l.Linkable name e.cls ∧ e.Fresh

theorem Supplies.sources {l : Loader} {a : MethodArea} (h : l.Supplies a) : l.Sources a := by
  intro name c hclass
  obtain ⟨e, hentry, rfl⟩ := MethodArea.class?_eq_some_iff.mp hclass
  exact (h name e hentry).1

theorem Loads.supplies {l : Loader} {a b : MethodArea} {pending : List String} {name : String}
    {r : Except Fault Class} (h : Loads l a pending name r b) (ha : l.Supplies a) :
    l.Supplies b := by
  intro n e hentry
  have hclass : b.class? n = some e.cls := MethodArea.class?_eq_some_iff.mpr ⟨e, hentry, rfl⟩
  refine ⟨h.sources ha.sources n e.cls hclass, ?_⟩
  rcases h.extended.fresh hentry with hbefore | hfresh
  · exact (ha n e hbefore).2
  · exact hfresh

theorem areaAfter_supplies (l : Loader) (names : List String) : l.Supplies (l.areaAfter names) := by
  refine l.areaAfter_induction (P := fun a => l.Supplies a) (fun _ _ h => nomatch h) ?_ names
  intro a name ha
  rcases l.ensure_cases name a with ⟨f, hfail⟩ | hloads
  · rw [hfail]
    exact ha
  · exact hloads.supplies ha

/-! ### Cycles -/

/-- The class file of `name` names `superclass` as its superclass. -/
def Extends (l : Loader) (name superclass : String) : Prop :=
  superclass ≠ "" ∧ ∃ file, l.classFile name = .ok file ∧ file.superName = superclass

/-- The way up from a class comes back to where it has been. -/
def RunsIntoCycle (l : Loader) (name : String) : Prop :=
  ∃ m, Relation.ReflTransGen l.Extends name m ∧ Relation.TransGen l.Extends m m

theorem Extends.unique {l : Loader} {name p q : String} (hp : l.Extends name p)
    (hq : l.Extends name q) : p = q := by
  obtain ⟨-, file, hfile, rfl⟩ := hp
  obtain ⟨-, file', hfile', rfl⟩ := hq
  rw [hfile] at hfile'
  cases hfile'
  rfl

/-- A class below a cycle has a superclass, which is below the cycle or on it. -/
theorem RunsIntoCycle.up {l : Loader} {name : String} (h : l.RunsIntoCycle name) :
    ∃ p, l.Extends name p ∧ l.RunsIntoCycle p := by
  obtain ⟨m, hreach, hcycle⟩ := h
  rcases Relation.ReflTransGen.cases_head hreach with rfl | ⟨p, hstep, hrest⟩
  · obtain ⟨p, hstep, hrest⟩ := Relation.TransGen.head'_iff.mp hcycle
    exact ⟨p, hstep, name, hrest, hcycle⟩
  · exact ⟨p, hstep, m, hrest, hcycle⟩

theorem Linkable.not_runsIntoCycle {l : Loader} {name : String} {c : Class}
    (h : l.Linkable name c) : ¬ l.RunsIntoCycle name := by
  induction h with
  | root hfile hsuper hstatics =>
    intro hcycle
    obtain ⟨p, ⟨hne, file, hfile', hp⟩, -⟩ := hcycle.up
    rw [hfile] at hfile'
    cases hfile'
    exact hne (hp ▸ hsuper)
  | derived hfile hsuper hstatics hparent ih =>
    intro hcycle
    obtain ⟨p, hstep, habove⟩ := hcycle.up
    rw [hstep.unique ⟨hsuper, _, hfile, rfl⟩] at habove
    exact ih habove

theorem Loads.circularity {l : Loader} {a b : MethodArea} {pending : List String} {name : String}
    {r : Except Fault Class} (h : Loads l a pending name r b) (ha : l.Sources a)
    (hcycle : l.RunsIntoCycle name) :
    ∃ f, r = .error f ∧ f.kind = .resolution ∧ f.cause? = some .classCircularity := by
  induction h with
  | present hclass => exact absurd hcycle (ha _ _ hclass).not_runsIntoCycle
  | circular hnew hpending => exact ⟨_, rfl, rfl, rfl⟩
  | unreadable hnew hfirst hfile =>
    obtain ⟨p, ⟨-, file, hfile', -⟩, -⟩ := hcycle.up
    rw [hfile] at hfile'
    cases hfile'
  | root hnew hfirst hfile hsuper hlink =>
    obtain ⟨p, ⟨hne, file, hfile', hp⟩, -⟩ := hcycle.up
    rw [hfile] at hfile'
    cases hfile'
    exact absurd (hp ▸ hsuper) hne
  | derived hnew hfirst hfile hsuper hparent hlink ih =>
    obtain ⟨p, hstep, habove⟩ := hcycle.up
    rw [hstep.unique ⟨hsuper, _, hfile, rfl⟩] at habove
    obtain ⟨f, hr, -⟩ := ih habove
    cases hr
  | parentFails hnew hfirst hfile hsuper hparent ih =>
    obtain ⟨p, hstep, habove⟩ := hcycle.up
    rw [hstep.unique ⟨hsuper, _, hfile, rfl⟩] at habove
    obtain ⟨f, hr, hkind, hcause⟩ := ih habove
    cases hr
    exact ⟨_, rfl, hkind, hcause⟩

end Loader

/-! ### Libraries -/

theorem Library.loader_bounded (library : Library) : library.loader.Bounded := by
  intro names hdistinct hload
  have hkeys : names ⊆ library.map Prod.fst := by
    intro name hmem
    obtain ⟨file, hfile⟩ := hload name hmem
    simp only [loader] at hfile
    split at hfile
    · rename_i data hlookup
      obtain ⟨before, after, rfl, -⟩ := List.lookup_eq_some_iff.mp hlookup
      simp
    · cases hfile
  have hlength := hdistinct.length_le_of_subset hkeys
  simpa [loader] using hlength

namespace Loader

/-- Whatever class files a library has and whatever was asked for before, a request ends, as the
recursion without a bound does. It leaves an area in which every class stands alone under its own
name, below the entry of its superclass, with no name twice on the way up; entries stay as they
were; a request that fails adds nothing under its name; and a class on the way to a cycle is refused
as circular. -/
theorem ensure_invariant (library : Library) (earlier : List String) (name : String) :
    let l := library.loader
    let a := l.areaAfter earlier
    let r := (l.ensure name a).1
    let b := (l.ensure name a).2
    Loads l a [] name r b ∧ b.Linked ∧
      (∀ n c, b.class? n = some c → c.name = n ∧ (c.lineage.map Class.name).Nodup) ∧
      (∀ n e, a.entry? n = some e → b.entry? n = some e) ∧
      (∀ c, r = .ok c → b.class? name = some c) ∧
      (∀ f, r = .error f → b.entry? name = none) ∧
      (l.RunsIntoCycle name →
        ∃ f, r = .error f ∧ f.kind = .resolution ∧ f.cause? = some .classCircularity) := by
  intro l a r b
  have hloads : Loads l a [] name r b := ensure_loads library.loader_bounded name a
  have hlinked : b.Linked := hloads.linked (l.areaAfter_linked earlier)
  refine ⟨hloads, hlinked, ?_, ?_, ?_, ?_, ?_⟩
  · intro n c hclass
    exact ⟨MethodArea.name_of_class? hclass, hlinked.lineage_nodup hclass⟩
  · intro n e hentry
    exact hloads.extended.keeps hentry
  · intro c hr
    exact (hr ▸ hloads).class?
  · intro f hr
    exact (hr ▸ hloads).entry?_of_error
  · intro hcycle
    exact hloads.circularity (l.areaAfter_supplies earlier).sources hcycle

def bareClass (name superName : String) : Bytes :=
  match (Builder.new name superName 0x21).bytes with
  | .ok data => data
  | .error _ => []

/-- `A` is below `B` and `C`, each of which names the other as its superclass; `E` is below `D`. -/
def cyclicLibrary : Library :=
  [("A", bareClass "A" "B"), ("B", bareClass "B" "C"), ("C", bareClass "C" "B"),
    ("D", bareClass "D" objectName), ("E", bareClass "E" "D")]

theorem cyclicLibrary_runsIntoCycle : cyclicLibrary.loader.RunsIntoCycle "A" := by
  have hA : cyclicLibrary.loader.Extends "A" "B" := ⟨by decide, _, rfl, rfl⟩
  have hB : cyclicLibrary.loader.Extends "B" "C" := ⟨by decide, _, rfl, rfl⟩
  have hC : cyclicLibrary.loader.Extends "C" "B" := ⟨by decide, _, rfl, rfl⟩
  exact ⟨"B", .single hA, .tail (.single hB) hC⟩

theorem ensure_invariant_cyclic :
    let l := cyclicLibrary.loader
    l.RunsIntoCycle "A" ∧ (l.areaAfter ["D", "A"]).classes.length = 2 ∧
      ∃ f, (l.ensure "A" (l.areaAfter ["D", "A"])).1 = .error f ∧
        f.cause? = some .classCircularity := by
  refine ⟨cyclicLibrary_runsIntoCycle, rfl, ?_⟩
  have hinvariant := ensure_invariant cyclicLibrary ["D", "A"] "A"
  obtain ⟨f, hr, -, hcause⟩ := hinvariant.2.2.2.2.2.2 cyclicLibrary_runsIntoCycle
  exact ⟨f, hr, hcause⟩

end Loader

end Jvm
