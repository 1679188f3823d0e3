import Jvm.Machine.Invocation
import Jvm.Proofs.Machine.Loading

/-!
# Starting classes

Claiming the classes of a chain from its root down starts a front part of them: all of them, or
those up to the first that was new and has an initialiser. So a class is started only after its
superclasses.

The method area changes in three ways: a class is loaded, a static field is stored into, or the next
class of a chain is claimed. `MethodArea.Evolves` is any number of these, and what each of them
keeps holds from then on.
-/

namespace Jvm

/-! ### Entries that change in place -/

namespace MethodArea

variable {a b : MethodArea} {name : String}

theorem entry?_map (a : MethodArea) {g : LoadedClass → LoadedClass} (hg : ∀ e, (g e).cls = e.cls)
    (name : String) : MethodArea.entry? ⟨a.classes.map g⟩ name = (a.entry? name).map g := by
  simp only [MethodArea.entry?, List.find?_map, Function.comp_def, hg]

theorem class?_map (a : MethodArea) {g : LoadedClass → LoadedClass} (hg : ∀ e, (g e).cls = e.cls)
    (name : String) : MethodArea.class? ⟨a.classes.map g⟩ name = a.class? name := by
  rw [class?, entry?_map a hg, Option.map_map, class?]
  congr 1
  funext e
  exact hg e

theorem exists_class?_iff :
    (∃ c, a.class? name = some c) ↔ name ∈ a.classes.map fun e => e.cls.name := by
  rw [← Option.isSome_iff_exists, class?, Option.isSome_map, MethodArea.entry?, List.find?_isSome]
  simp

theorem Linked.map (h : a.Linked) {g : LoadedClass → LoadedClass} (hg : ∀ e, (g e).cls = e.cls) :
    Linked ⟨a.classes.map g⟩ where
  distinct := by
    have hnames : (a.classes.map g).map (fun e => e.cls.name) =
        a.classes.map fun e => e.cls.name := by
      simp only [List.map_map, Function.comp_def, hg]
    rw [hnames]
    exact h.distinct
  super_none hclass := by
    rw [class?_map a hg] at hclass
    exact h.super_none hclass
  super_some hclass hne := by
    rw [class?_map a hg] at hclass
    rw [class?_map a hg]
    exact h.super_some hclass hne

theorem cls_modified {f : LoadedClass → LoadedClass} (hf : ∀ e, (f e).cls = e.cls)
    (e : LoadedClass) : (if e.cls.name == name then f e else e).cls = e.cls := by
  split
  · exact hf e
  · rfl

theorem entry?_modify (a : MethodArea) {f : LoadedClass → LoadedClass}
    (hf : ∀ e, (f e).cls = e.cls) (name n : String) :
    MethodArea.entry? (a.modify name f) n =
      (a.entry? n).map fun e => if e.cls.name == name then f e else e :=
  entry?_map a (cls_modified hf) n

theorem Linked.modify (h : a.Linked) {f : LoadedClass → LoadedClass}
    (hf : ∀ e, (f e).cls = e.cls) (name : String) : (a.modify name f).Linked :=
  h.map (cls_modified hf)

def stored (slot : Nat) (v : Value) (e : LoadedClass) : LoadedClass :=
  { e with statics := e.statics.set slot v }

theorem cls_stored (slot : Nat) (v : Value) (e : LoadedClass) : (stored slot v e).cls = e.cls := rfl

theorem setStatic_eq {c : Class} {field descriptor : String} {v : Value}
    (h : a.setStatic c field descriptor v = .ok b) :
    ∃ slot, c.staticSlot? field descriptor = some slot ∧
      b = a.modify c.name (stored slot v) := by
  unfold setStatic at h
  split at h
  · cases h
  · rename_i slot hslot
    cases h
    exact ⟨slot, hslot, rfl⟩

/-! ### Start marks -/

def Started (a : MethodArea) (name : String) : Prop :=
  ∃ e, a.entry? name = some e ∧ e.started = true

/-- Whoever has been started has all superclasses started. -/
def Orderly (a : MethodArea) : Prop :=
  ∀ name c k, a.class? name = some c → a.Started name → k ∈ c.lineage → a.Started k.name

/-- An entry that has been started if it is among the named. -/
def mark (names : List String) (e : LoadedClass) : LoadedClass :=
  { e with started := e.started || names.contains e.cls.name }

theorem cls_mark (names : List String) (e : LoadedClass) : (mark names e).cls = e.cls := rfl

def marked (a : MethodArea) (names : List String) : MethodArea := ⟨a.classes.map (mark names)⟩

theorem entry?_marked (a : MethodArea) (names : List String) (name : String) :
    MethodArea.entry? (a.marked names) name = (a.entry? name).map (mark names) :=
  entry?_map a (cls_mark names) name

@[simp] theorem class?_marked (a : MethodArea) (names : List String) (name : String) :
    (a.marked names).class? name = a.class? name :=
  class?_map a (cls_mark names) name

theorem marked_nil (a : MethodArea) : a.marked [] = a := by
  have hmark : mark [] = id := by
    funext e
    simp [mark]
  rw [marked, hmark, List.map_id]

theorem marked_marked (a : MethodArea) (names names' : List String) :
    (a.marked names).marked names' = a.marked (names ++ names') := by
  simp [marked, mark, Bool.or_assoc]

theorem started_marked {names : List String} :
    (a.marked names).Started name ↔
      a.Started name ∨ name ∈ names ∧ ∃ c, a.class? name = some c := by
  simp only [Started, entry?_marked, Option.map_eq_some_iff]
  constructor
  · rintro ⟨_, ⟨e, hentry, rfl⟩, hstarted⟩
    rw [mark, name_of_entry hentry] at hstarted
    rcases Bool.or_eq_true_iff.mp hstarted with hold | hnew
    · exact .inl ⟨e, hentry, hold⟩
    · exact .inr ⟨by simpa using hnew, e.cls, class?_eq_some_iff.mpr ⟨e, hentry, rfl⟩⟩
  · rintro (⟨e, hentry, hstarted⟩ | ⟨hmem, c, hclass⟩)
    · exact ⟨_, ⟨e, hentry, rfl⟩, by simp [mark, hstarted]⟩
    · obtain ⟨e, hentry, -⟩ := class?_eq_some_iff.mp hclass
      refine ⟨_, ⟨e, hentry, rfl⟩, ?_⟩
      rw [mark, name_of_entry hentry]
      simp [hmem]

theorem claim?_eq_some (h : a.claim? name = some b) : ¬ a.Started name ∧ b = a.marked [name] := by
  unfold claim? at h
  split at h
  · rename_i e hentry
    split at h
    · cases h
    · rename_i hnew
      cases h
      refine ⟨?_, ?_⟩
      · rintro ⟨e', hentry', hstarted⟩
        rw [hentry] at hentry'
        cases hentry'
        exact hnew hstarted
      · simp only [modify, marked, mk.injEq]
        refine List.map_congr_left fun e _ => ?_
        by_cases hname : e.cls.name = name <;> simp [mark, hname]
  · cases h

theorem claim?_eq_none {c : Class} (hclass : a.class? name = some c)
    (h : a.claim? name = none) : a.Started name := by
  obtain ⟨e, hentry, -⟩ := class?_eq_some_iff.mp hclass
  refine ⟨e, hentry, ?_⟩
  cases hstarted : e.started with
  | true => rfl
  | false => simp [claim?, hentry, hstarted] at h

end MethodArea

/-! ### Claims -/

theorem Environment.initializer?_target {env : Environment} {k : Class} {i : Invocation}
    (h : env.initializer? k = some i) : i.target.className = k.name := by
  simp only [initializer?, Option.map_eq_some_iff] at h
  obtain ⟨callee, -, rfl⟩ := h
  rfl

theorem Environment.initializer?_of_claimFrom {env : Environment} {cs : List Class}
    {a : MethodArea} {i : Invocation} (h : (env.claimFrom cs a).1 = some i) :
    ∃ k ∈ cs, env.initializer? k = some i := by
  induction cs generalizing a with
  | nil => cases h
  | cons c rest ih =>
    have hrest : ∀ b, (env.claimFrom rest b).1 = some i →
        ∃ k ∈ c :: rest, env.initializer? k = some i := fun b hb => by
      obtain ⟨k, hk, hi⟩ := ih hb
      exact ⟨k, List.mem_cons_of_mem c hk, hi⟩
    unfold claimFrom at h
    split at h
    · exact hrest _ h
    · split at h
      · rename_i j hj
        cases h
        exact ⟨c, List.mem_cons_self, hj⟩
      · exact hrest _ h

/-- Claiming the classes `ks` in order gave `r`: the classes of `front` have been started now, and
these are all, or the initialiser of one that had not been started is asked for. -/
structure MethodArea.Claimed (env : Environment) (a : MethodArea) (ks front : List Class)
    (r : Option Invocation) (b : MethodArea) : Prop where
  isFront : front <+: ks
  marked : ∃ names, (∀ n ∈ names, n ∈ front.map Class.name) ∧ b = a.marked names
  started : ∀ k ∈ front, b.Started k.name
  all : r = none → front = ks
  asked : ∀ i, r = some i → ∃ k ∈ front, ¬ a.Started k.name ∧ env.initializer? k = some i

namespace Environment

open MethodArea

theorem claimFrom_claimed (env : Environment) {ks : List Class} {a : MethodArea}
    (hks : ∀ k ∈ ks, a.class? k.name = some k) :
    ∃ front, Claimed env a ks front (env.claimFrom ks a).1 (env.claimFrom ks a).2 := by
  induction ks generalizing a with
  | nil =>
    refine ⟨[], List.prefix_rfl, ⟨[], by simp, (marked_nil a).symm⟩, by simp, fun _ => rfl, ?_⟩
    exact fun i h => nomatch h
  | cons k rest ih =>
    have hk := hks k List.mem_cons_self
    rw [claimFrom]
    cases hclaim : a.claim? k.name with
    | none =>
      have hold := claim?_eq_none hk hclaim
      obtain ⟨front, hfront, ⟨names, hnames, hb⟩, hstarted, hall, hasked⟩ :=
        ih fun k' hk' => hks k' (List.mem_cons_of_mem _ hk')
      refine ⟨k :: front, ?_, ⟨names, ?_, hb⟩, ?_, ?_, ?_⟩
      · exact (List.prefix_cons_inj k).mpr hfront
      · exact fun n hn => List.mem_cons_of_mem _ (hnames n hn)
      · rw [List.forall_mem_cons]
        refine ⟨?_, hstarted⟩
        show (env.claimFrom rest a).2.Started k.name
        rw [hb]
        exact started_marked.mpr (.inl hold)
      · exact fun hr => by rw [hall hr]
      · intro i hi
        obtain ⟨k', hk', hasks⟩ := hasked i hi
        exact ⟨k', List.mem_cons_of_mem _ hk', hasks⟩
    | some a₁ =>
      obtain ⟨hnew, rfl⟩ := claim?_eq_some hclaim
      have hfirst : (a.marked [k.name]).Started k.name :=
        started_marked.mpr (.inr ⟨List.mem_cons_self, k, hk⟩)
      cases hinit : env.initializer? k with
      | some i =>
        refine ⟨[k], ⟨rest, rfl⟩, ⟨[k.name], by simp, rfl⟩, ?_, ?_, ?_⟩
        · simpa using hfirst
        · intro hr
          cases hr
        · intro _ hi
          cases hi
          exact ⟨k, List.mem_cons_self, hnew, hinit⟩
      | none =>
        have hrest : ∀ k' ∈ rest, (a.marked [k.name]).class? k'.name = some k' := by
          intro k' hk'
          rw [class?_marked]
          exact hks k' (List.mem_cons_of_mem _ hk')
        obtain ⟨front, hfront, ⟨names, hnames, hb⟩, hstarted, hall, hasked⟩ := ih hrest
        refine ⟨k :: front, ?_, ⟨k.name :: names, ?_, ?_⟩, ?_, ?_, ?_⟩
        · exact (List.prefix_cons_inj k).mpr hfront
        · rw [List.forall_mem_cons]
          exact ⟨List.mem_cons_self, fun n hn => List.mem_cons_of_mem _ (hnames n hn)⟩
        · exact hb.trans (marked_marked a [k.name] names)
        · rw [List.forall_mem_cons]
          refine ⟨?_, hstarted⟩
          show (env.claimFrom rest (a.marked [k.name])).2.Started k.name
          rw [hb]
          exact started_marked.mpr (.inl hfirst)
        · exact fun hr => by rw [hall hr]
        · intro i hi
          obtain ⟨k', hk', hstill, hasks⟩ := hasked i hi
          refine ⟨k', List.mem_cons_of_mem _ hk', fun hold => hstill ?_, hasks⟩
          exact started_marked.mpr (.inl hold)

/-- The next initialiser of a loaded class is found by claiming its chain from the root down. -/
theorem initStep_claimed (env : Environment) {a : MethodArea} (ha : a.Linked) {name : String}
    {c : Class} (hc : a.class? name = some c) :
    ∃ front r, (env.initStep c a).1 = .ok r ∧
      Claimed env a c.lineage.reverse front r (env.initStep c a).2 := by
  have hloaded : ∀ k ∈ c.lineage.reverse, a.class? k.name = some k :=
    fun k hk => ha.lineage hc (List.mem_reverse.mp hk)
  obtain ⟨front, hclaimed⟩ := env.claimFrom_claimed hloaded
  exact ⟨front, _, rfl, hclaimed⟩

/-- When there is none, the class and its superclasses have been started. -/
theorem initStep_none {env : Environment} {a b : MethodArea} (ha : a.Linked) {name : String}
    {c : Class} (hc : a.class? name = some c) (h : env.initStep c a = (.ok none, b)) :
    ∀ k ∈ c.lineage, b.Started k.name := by
  obtain ⟨front, r, hr, hclaimed⟩ := env.initStep_claimed ha hc
  rw [h] at hr hclaimed
  cases hr
  intro k hk
  refine hclaimed.started k ?_
  rw [hclaimed.all rfl]
  exact List.mem_reverse.mpr hk

/-- When there is one, it is that of a class of the chain that is started by this very step. -/
theorem initStep_some {env : Environment} {a b : MethodArea} (ha : a.Linked) {name : String}
    {c : Class} (hc : a.class? name = some c) {i : Invocation}
    (h : env.initStep c a = (.ok (some i), b)) :
    ∃ k ∈ c.lineage, ¬ a.Started k.name ∧ b.Started k.name ∧ env.initializer? k = some i := by
  obtain ⟨front, r, hr, hclaimed⟩ := env.initStep_claimed ha hc
  rw [h] at hr hclaimed
  cases hr
  obtain ⟨k, hk, hnew, hinit⟩ := hclaimed.asked i rfl
  exact ⟨k, List.mem_reverse.mp (hclaimed.isFront.subset hk), hnew, hclaimed.started k hk, hinit⟩

end Environment

/-! ### Superclasses first -/

theorem Class.lineage_of_mem {c k : Class} (h : k ∈ c.lineage) :
    ∀ j ∈ k.lineage, j ∈ c.lineage := by
  obtain ⟨file, ancestors⟩ := c
  simp only [lineage] at h ⊢
  induction ancestors generalizing file with
  | nil =>
    rw [List.mem_singleton.mp h]
    exact fun j hj => hj
  | cons parent rest ih =>
    rcases List.mem_cons.mp h with rfl | h
    · exact fun j hj => hj
    · exact fun j hj => List.mem_cons_of_mem _ (ih parent h j hj)

theorem Class.lineage_of_mem_suffix {c k : Class} {upper : List Class} (h : upper <:+ c.lineage)
    (hk : k ∈ upper) : ∀ j ∈ k.lineage, j ∈ upper := by
  obtain ⟨file, ancestors⟩ := c
  induction ancestors generalizing file with
  | nil =>
    have hwhole : upper = [⟨file, []⟩] := by
      rcases List.suffix_cons_iff.mp h with heq | hnil
      · exact heq
      · rw [List.suffix_nil.mp hnil] at hk
        cases hk
    subst hwhole
    exact lineage_of_mem (c := ⟨file, []⟩) hk
  | cons parent rest ih =>
    rcases List.suffix_cons_iff.mp h with rfl | habove
    · exact lineage_of_mem (c := ⟨file, parent :: rest⟩) hk
    · exact ih parent habove

theorem Environment.initStep_orderly {env : Environment} {a : MethodArea} (ha : a.Linked)
    {name : String} {c : Class} (hc : a.class? name = some c) (h : a.Orderly) :
    (env.initStep c a).2.Orderly := by
  obtain ⟨front, r, -, hclaimed⟩ := env.initStep_claimed ha hc
  obtain ⟨names, hnames, hb⟩ := hclaimed.marked
  intro n k j hclass hstarted hj
  rw [hb, MethodArea.class?_marked] at hclass
  rw [hb] at hstarted
  rcases MethodArea.started_marked.mp hstarted with hold | ⟨hmem, -⟩
  · rw [hb]
    exact MethodArea.started_marked.mpr (.inl (h n k j hclass hold hj))
  · -- The class was claimed, and its superclasses come before it in the front part.
    obtain ⟨k', hk', rfl⟩ := List.mem_map.mp (hnames n hmem)
    have hk'c : k' ∈ c.lineage := List.mem_reverse.mp (hclaimed.isFront.subset hk')
    rw [ha.lineage hc hk'c] at hclass
    cases hclass
    refine hclaimed.started j (List.mem_reverse.mp ?_)
    have hupper : front.reverse <:+ c.lineage := by
      have hreverse := List.reverse_suffix.mpr hclaimed.isFront
      rwa [List.reverse_reverse] at hreverse
    exact Class.lineage_of_mem_suffix hupper (List.mem_reverse.mpr hk') j hj

/-! ### How an area evolves -/

theorem MethodArea.Orderly.empty : MethodArea.Orderly .empty := fun _ _ _ hclass => nomatch hclass

namespace MethodArea

inductive Operation (env : Environment) (a : MethodArea) : MethodArea → Prop where
  | load (name : String) : Operation env a (env.loader.ensure name a).2
  | write {c : Class} {field descriptor : String} {v : Value} {b : MethodArea}
    (hset : a.setStatic c field descriptor v = .ok b) : Operation env a b
  | start {c : Class} (hclass : a.class? c.name = some c) : Operation env a (env.initStep c a).2

/-- Any number of operations. -/
def Evolves (env : Environment) : MethodArea → MethodArea → Prop :=
  Relation.ReflTransGen (Operation env)

variable {env : Environment} {a b : MethodArea} {name : String}

theorem Operation.of_ensure {r : Except Fault Class} (h : env.loader.ensure name a = (r, b)) :
    Operation env a b := by
  obtain rfl : (env.loader.ensure name a).2 = b := congrArg Prod.snd h
  exact .load name

theorem Operation.of_initStep {c : Class} {r : Except Fault (Option Invocation)}
    (hclass : a.class? c.name = some c) (h : env.initStep c a = (r, b)) : Operation env a b := by
  obtain rfl : (env.initStep c a).2 = b := congrArg Prod.snd h
  exact .start hclass

theorem Operation.linked (h : Operation env a b) (ha : a.Linked) : b.Linked := by
  cases h with
  | load name => exact env.loader.ensure_linked name ha
  | write hset =>
    obtain ⟨slot, -, rfl⟩ := setStatic_eq hset
    exact ha.modify (cls_stored slot _) _
  | start hclass =>
    obtain ⟨front, r, -, hclaimed⟩ := env.initStep_claimed ha hclass
    obtain ⟨names, -, hb⟩ := hclaimed.marked
    rw [hb]
    exact ha.map (cls_mark names)

theorem Operation.keeps (h : Operation env a b) (ha : a.Linked) {e : LoadedClass}
    (he : a.entry? name = some e) :
    ∃ e', b.entry? name = some e' ∧ e'.cls = e.cls ∧ (e.started = true → e'.started = true) := by
  cases h with
  | load n => exact ⟨e, (env.loader.ensure_extended n a).keeps he, rfl, id⟩
  | write hset =>
    obtain ⟨slot, -, rfl⟩ := setStatic_eq hset
    rw [entry?_modify a (cls_stored slot _), he]
    refine ⟨_, rfl, cls_modified (cls_stored slot _) e, fun hstarted => ?_⟩
    dsimp only
    split <;> exact hstarted
  | start hclass =>
    obtain ⟨front, r, -, hclaimed⟩ := env.initStep_claimed ha hclass
    obtain ⟨names, -, hb⟩ := hclaimed.marked
    rw [hb, entry?_marked, he]
    exact ⟨_, rfl, rfl, fun hstarted => by simp [mark, hstarted]⟩

theorem Operation.started (h : Operation env a b) (ha : a.Linked) (hname : a.Started name) :
    b.Started name := by
  obtain ⟨e, hentry, hstarted⟩ := hname
  obtain ⟨e', hentry', -, hmark⟩ := h.keeps ha hentry
  exact ⟨e', hentry', hmark hstarted⟩

theorem Operation.class? (h : Operation env a b) (ha : a.Linked) {c : Class}
    (hc : a.class? name = some c) : b.class? name = some c := by
  obtain ⟨e, hentry, rfl⟩ := class?_eq_some_iff.mp hc
  obtain ⟨e', hentry', hcls, -⟩ := h.keeps ha hentry
  exact class?_eq_some_iff.mpr ⟨e', hentry', hcls⟩

theorem Operation.orderly_of_started (h : Operation env a b) (ha : a.Linked) (horderly : a.Orderly)
    (hold : ∀ n, b.Started n → a.Started n) : b.Orderly := by
  intro n c k hclass hstarted hk
  obtain ⟨e, hentry, hmark⟩ := hold n hstarted
  have hbefore : a.class? n = some e.cls := class?_eq_some_iff.mpr ⟨e, hentry, rfl⟩
  have hafter := h.class? ha hbefore
  rw [hclass] at hafter
  cases hafter
  exact h.started ha (horderly n _ k hbefore ⟨e, hentry, hmark⟩ hk)

theorem Operation.orderly (h : Operation env a b) (ha : a.Linked) (horderly : a.Orderly) :
    b.Orderly := by
  cases h with
  | load name =>
    refine Operation.orderly_of_started (.load name) ha horderly ?_
    rintro n ⟨e, hentry, hstarted⟩
    rcases (env.loader.ensure_extended name a).fresh hentry with hbefore | hfresh
    · exact ⟨e, hbefore, hstarted⟩
    · rw [hfresh.started] at hstarted
      cases hstarted
  | write hset =>
    have hop : Operation env a b := .write hset
    refine hop.orderly_of_started ha horderly ?_
    obtain ⟨slot, -, rfl⟩ := setStatic_eq hset
    rintro n ⟨e, hentry, hstarted⟩
    rw [entry?_modify a (cls_stored slot _), Option.map_eq_some_iff] at hentry
    obtain ⟨e', hentry', rfl⟩ := hentry
    refine ⟨e', hentry', ?_⟩
    split at hstarted <;> exact hstarted
  | start hclass => exact env.initStep_orderly ha hclass horderly

namespace Evolves

theorem refl (env : Environment) (a : MethodArea) : Evolves env a a := Relation.ReflTransGen.refl

theorem trans {c : MethodArea} (hab : Evolves env a b) (hbc : Evolves env b c) :
    Evolves env a c :=
  Relation.ReflTransGen.trans hab hbc

theorem step {c : MethodArea} (hab : Evolves env a b) (hbc : Operation env b c) :
    Evolves env a c :=
  Relation.ReflTransGen.tail hab hbc

theorem linked (h : Evolves env a b) (ha : a.Linked) : b.Linked := by
  induction h with
  | refl => exact ha
  | tail _ hstep ih => exact hstep.linked ih

theorem started (h : Evolves env a b) (ha : a.Linked) (hname : a.Started name) :
    b.Started name := by
  induction h with
  | refl => exact hname
  | tail hsteps hstep ih => exact hstep.started (linked hsteps ha) ih

theorem class? (h : Evolves env a b) (ha : a.Linked) {c : Class} (hc : a.class? name = some c) :
    b.class? name = some c := by
  induction h with
  | refl => exact hc
  | tail hsteps hstep ih => exact hstep.class? (linked hsteps ha) ih

theorem orderly (h : Evolves env a b) (ha : a.Linked) (horderly : a.Orderly) : b.Orderly := by
  induction h with
  | refl => exact horderly
  | tail hsteps hstep ih => exact hstep.orderly (linked hsteps ha) ih

theorem length_le (h : Evolves env a b) (ha : a.Linked) :
    a.classes.length ≤ b.classes.length := by
  have hsubset : (a.classes.map fun e => e.cls.name) ⊆ b.classes.map fun e => e.cls.name := by
    intro n hn
    obtain ⟨c, hclass⟩ := exists_class?_iff.mpr hn
    exact exists_class?_iff.mp ⟨c, h.class? ha hclass⟩
  have hlength := ha.distinct.length_le_of_subset hsubset
  simpa using hlength

end Evolves

end MethodArea

end Jvm
