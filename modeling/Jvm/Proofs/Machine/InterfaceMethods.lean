import Mathlib
import Jvm.Proofs.Machine.Provenance

/-!
# Resolving interface methods

A method that no class of a chain declares is looked for in the interfaces that the chain names.
What comes out depends on the set of those that declare it: the method of the only one, or a failure
that says whether there are none or several. So neither the order of interface names nor naming one
again makes a difference.
-/

namespace Jvm

/-! ### The declaring interfaces -/

/-- The interfaces that a class and its superclasses name, as often as they are named. -/
def Class.namedInterfaces (c : Class) : List String :=
  c.lineage.flatMap fun k => k.file.interfaceNames

theorem Class.mem_directInterfaces {c : Class} {n : String} :
    n ∈ c.directInterfaces ↔ n ∈ c.namedInterfaces :=
  List.mem_eraseDups

theorem nodup_eraseDups (names : List String) : names.eraseDups.Nodup := by
  cases names with
  | nil => exact List.nodup_nil
  | cons n rest =>
    rw [List.eraseDups_cons, List.nodup_cons]
    refine ⟨?_, nodup_eraseDups (rest.filter fun m => !m == n)⟩
    simp [List.mem_eraseDups]
termination_by names.length
decreasing_by
  exact Nat.lt_succ_of_le (List.length_filter_le _ rest)

namespace Loader

def declares (l : Loader) (a : MethodArea) (name descriptor n : String) : Bool :=
  match (l.ensure n a).1 with
  | .ok i => (i.file.method? name descriptor).isSome
  | .error _ => false

/-- The distinct interfaces, among those that a class and its superclasses name, that declare a
method. -/
def declaring (l : Loader) (a : MethodArea) (c : Class) (name descriptor : String) :
    Finset String :=
  c.namedInterfaces.toFinset.filter fun n => l.declares a name descriptor n = true

/-- The interface of a name and the method that it declares. -/
def DeclaredBy (l : Loader) (a : MethodArea) (name descriptor n : String) (d : Class × Method) :
    Prop :=
  (l.ensure n a).1 = .ok d.1 ∧ d.1.file.method? name descriptor = some d.2

section

variable {l : Loader} {a : MethodArea} {c : Class} {name descriptor : String}

theorem DeclaredBy.unique {n : String} {d d' : Class × Method}
    (h : l.DeclaredBy a name descriptor n d) (h' : l.DeclaredBy a name descriptor n d') :
    d' = d := by
  have hclass : d'.1 = d.1 := Except.ok.inj (h'.1.symm.trans h.1)
  have hmethod := h'.2
  rw [hclass, h.2] at hmethod
  exact Prod.ext hclass (Option.some.inj hmethod).symm

theorem declaring_eq : l.declaring a c name descriptor =
    (c.directInterfaces.filter (l.declares a name descriptor)).toFinset := by
  ext n
  simp [declaring, Class.mem_directInterfaces]

/-! ### Loading the interfaces -/

theorem ensureAll_ok {names : List String} (ha : l.Sources a)
    (hload : ∀ n ∈ names, ∃ i, (l.ensure n a).1 = .ok i) :
    ∃ interfaces b, l.ensureAll names a = (.ok interfaces, b) ∧
      List.Forall₂ (fun n i => (l.ensure n a).1 = .ok i) names interfaces := by
  -- The area `b` in which a name is loaded has all that `a` has, and more.
  have hloads : ∀ (names : List String) (b : MethodArea), b.Covers a → l.Sources b →
      (∀ n ∈ names, ∃ i, (l.ensure n a).1 = .ok i) →
      ∃ interfaces b', l.ensureAll names b = (.ok interfaces, b') ∧
        List.Forall₂ (fun n i => (l.ensure n a).1 = .ok i) names interfaces := by
    intro names
    induction names with
    | nil => exact fun b _ _ _ => ⟨[], b, rfl, .nil⟩
    | cons n rest ih =>
      intro b hcovers hb hload
      obtain ⟨i, hi⟩ := hload n List.mem_cons_self
      have hlater : l.ensure n b = (.ok i, (l.ensure n b).2) :=
        Prod.ext (ensure_covers hcovers ha hb hi) rfl
      have hcovers' : (l.ensure n b).2.Covers a := fun hclass =>
        (l.ensure_extended n b).class? (hcovers hclass)
      obtain ⟨interfaces, b', hrest, hforall⟩ :=
        ih _ hcovers' (l.ensure_sources n hb) fun m hm => hload m (List.mem_cons_of_mem n hm)
      refine ⟨i :: interfaces, b', ?_, .cons hi hforall⟩
      rw [ensureAll]
      exact Effect.bind_eq_ok.mpr ⟨i, _, hlater, Effect.bind_eq_ok.mpr ⟨_, _, hrest, rfl⟩⟩
  exact hloads names a (fun hclass => hclass) ha hload

theorem filterMap_declared (name descriptor : String) {names : List String}
    {interfaces : List Class}
    (h : List.Forall₂ (fun n i => (l.ensure n a).1 = .ok i) names interfaces) :
    List.Forall₂ (l.DeclaredBy a name descriptor) (names.filter (l.declares a name descriptor))
      (interfaces.filterMap fun i => (i.file.method? name descriptor).map fun m => (i, m)) := by
  induction h with
  | nil => exact .nil
  | @cons n i names interfaces hi hrest ih =>
    cases hm : i.file.method? name descriptor with
    | none =>
      have hno : l.declares a name descriptor n = false := by simp [declares, hi, hm]
      simpa [hno, hm] using ih
    | some m =>
      have hyes : l.declares a name descriptor n = true := by simp [declares, hi, hm]
      simpa [hyes, hm] using ⟨⟨hi, hm⟩, ih⟩

/-! ### The answer -/

/-- What the classes of a chain and the interfaces that they name have to say about a method: the
nearest declaration in the chain, or else what depends on how many of the interfaces declare it. -/
inductive MethodAnswer (l : Loader) (a : MethodArea) (c : Class) (name descriptor : String) :
    Except Fault (Class × Method) → Prop
  | nearest {below above : List Class} {k : Class} {m : Method}
      (hlineage : c.lineage = below ++ k :: above)
      (hbelow : ∀ j ∈ below, j.file.method? name descriptor = none)
      (hk : k.file.method? name descriptor = some m) :
      MethodAnswer l a c name descriptor (.ok (k, m))
  | only {n : String} {d : Class × Method}
      (hchain : ∀ k ∈ c.lineage, k.file.method? name descriptor = none)
      (honly : l.declaring a c name descriptor = {n})
      (hd : l.DeclaredBy a name descriptor n d) :
      MethodAnswer l a c name descriptor (.ok d)
  | undeclared
      (hchain : ∀ k ∈ c.lineage, k.file.method? name descriptor = none)
      (hnone : l.declaring a c name descriptor = ∅) :
      MethodAnswer l a c name descriptor
        (.error (methodNotFound (c.name ++ "." ++ name ++ descriptor)))
  | ambiguous {detail : String}
      (hchain : ∀ k ∈ c.lineage, k.file.method? name descriptor = none)
      (hseveral : 2 ≤ (l.declaring a c name descriptor).card) :
      MethodAnswer l a c name descriptor (.error (.of .resolution .ambiguousInterfaceMethod detail))

theorem resolveMethod?_eq_none : c.resolveMethod? name descriptor = none ↔
    ∀ k ∈ c.lineage, k.file.method? name descriptor = none := by
  simp [Class.resolveMethod?, List.findSome?_eq_none_iff]

theorem resolveMethod?_eq_some {below above : List Class} {k : Class} {m : Method}
    (hlineage : c.lineage = below ++ k :: above)
    (hbelow : ∀ j ∈ below, j.file.method? name descriptor = none)
    (hk : k.file.method? name descriptor = some m) :
    c.resolveMethod? name descriptor = some (k, m) := by
  refine List.findSome?_eq_some_iff.mpr ⟨below, k, above, hlineage, by simp [hk], fun j hj => ?_⟩
  simp [hbelow j hj]

theorem resolveInterfaceMethod_of_some {d : Class × Method}
    (hchain : c.resolveMethod? name descriptor = some d) :
    (l.resolveInterfaceMethod c name descriptor a).1 = .ok d := by
  rw [resolveInterfaceMethod, hchain]
  rfl

/-- Resolution gives the answer, when all interfaces of the chain can be loaded. -/
theorem resolveInterfaceMethod_answer (name descriptor : String) (ha : l.Sources a)
    (hload : ∀ n ∈ c.namedInterfaces, ∃ i, (l.ensure n a).1 = .ok i) :
    l.MethodAnswer a c name descriptor (l.resolveInterfaceMethod c name descriptor a).1 := by
  cases hresolve : c.resolveMethod? name descriptor with
  | some d =>
    rw [resolveInterfaceMethod_of_some hresolve]
    obtain ⟨below, k, above, hlineage, hk, hbelow⟩ := List.findSome?_eq_some_iff.mp hresolve
    obtain ⟨m, hm, rfl⟩ := Option.map_eq_some_iff.mp hk
    exact .nearest hlineage (fun j hj => Option.map_eq_none_iff.mp (hbelow j hj)) hm
  | none =>
    have hchain := resolveMethod?_eq_none.mp hresolve
    have hdirect : ∀ n ∈ c.directInterfaces, ∃ i, (l.ensure n a).1 = .ok i :=
      fun n hn => hload n (Class.mem_directInterfaces.mp hn)
    obtain ⟨interfaces, b, hall, hloaded⟩ := ensureAll_ok ha hdirect
    -- The names that declare the method are distinct, and each stands for one declaration.
    have hfound := filterMap_declared name descriptor hloaded
    have hnodup : (c.directInterfaces.filter (l.declares a name descriptor)).Nodup :=
      (nodup_eraseDups _).filter _
    have hset : l.declaring a c name descriptor = _ := declaring_eq
    simp only [resolveInterfaceMethod, hresolve, Effect.bind_apply, hall]
    generalize interfaces.filterMap (fun i =>
      (i.file.method? name descriptor).map fun m => (i, m)) = found at hfound ⊢
    generalize c.directInterfaces.filter (l.declares a name descriptor) = names at *
    cases hfound with
    | nil => exact .undeclared hchain hset
    | cons hd hrest =>
      cases hrest with
      | nil => exact .only hchain hset hd
      | cons hd' hrest' =>
        refine .ambiguous hchain ?_
        rw [hset, List.toFinset_card_of_nodup hnodup]
        exact Nat.le_add_left 2 _

theorem MethodAnswer.unique {d : Class × Method} {r : Except Fault (Class × Method)}
    (h : l.MethodAnswer a c name descriptor (.ok d)) (h' : l.MethodAnswer a c name descriptor r) :
    r = .ok d := by
  cases h with
  | nearest hlineage hbelow hk =>
    have hsome := resolveMethod?_eq_some hlineage hbelow hk
    cases h' with
    | nearest hlineage' hbelow' hk' =>
      rw [resolveMethod?_eq_some hlineage' hbelow' hk'] at hsome
      rw [Option.some.inj hsome]
    | only hchain | undeclared hchain | ambiguous hchain =>
      rw [resolveMethod?_eq_none.mpr hchain] at hsome
      cases hsome
  | only hchain honly hd =>
    cases h' with
    | nearest hlineage hbelow hk =>
      have hsome := resolveMethod?_eq_some hlineage hbelow hk
      rw [resolveMethod?_eq_none.mpr hchain] at hsome
      cases hsome
    | only hchain' honly' hd' =>
      obtain rfl := Finset.singleton_injective (honly'.symm.trans honly)
      rw [hd.unique hd']
    | undeclared hchain' hnone =>
      rw [honly] at hnone
      exact absurd hnone (Finset.singleton_ne_empty _)
    | ambiguous hchain' hseveral =>
      rw [honly, Finset.card_singleton] at hseveral
      omega

end

end Loader

/-! ### Order and repetition -/

/-- The same class file up to the order of the interface names and to how often each is named. -/
structure ClassFile.Reordered (f g : ClassFile) : Prop where
  name : g.name = f.name
  methods : g.methods = f.methods
  interfaceNames : ∀ n, n ∈ g.interfaceNames ↔ n ∈ f.interfaceNames

/-- The same chain of classes up to the interface names. -/
def Class.Reordered (c k : Class) : Prop :=
  List.Forall₂ (fun i j => i.file.Reordered j.file) c.lineage k.lineage

/-- The name of the class that declares a method, and the method. -/
def Class.signature (d : Class × Method) : String × Method := (d.1.name, d.2)

theorem ClassFile.Reordered.method? {f g : ClassFile} (h : f.Reordered g)
    (name descriptor : String) : g.method? name descriptor = f.method? name descriptor := by
  rw [ClassFile.method?, ClassFile.method?, h.methods]

namespace Class.Reordered

variable {c k : Class}

theorem symm (h : c.Reordered k) : k.Reordered c := by
  refine h.flip.imp fun i j hij => ?_
  exact ⟨hij.name.symm, hij.methods.symm, fun n => (hij.interfaceNames n).symm⟩

theorem mem_namedInterfaces (h : c.Reordered k) (n : String) :
    n ∈ k.namedInterfaces ↔ n ∈ c.namedInterfaces := by
  unfold Class.Reordered at h
  unfold Class.namedInterfaces
  generalize c.lineage = classes, k.lineage = others at h ⊢
  induction h with
  | nil => rfl
  | cons hij hrest ih =>
    rw [List.flatMap_cons, List.flatMap_cons, List.mem_append, List.mem_append, ih,
      hij.interfaceNames]

theorem resolveMethod? (h : c.Reordered k) (name descriptor : String) :
    (k.resolveMethod? name descriptor).map Class.signature =
      (c.resolveMethod? name descriptor).map Class.signature := by
  unfold Class.Reordered at h
  unfold Class.resolveMethod?
  generalize c.lineage = classes, k.lineage = others at h ⊢
  induction h with
  | nil => rfl
  | @cons i j _ _ hij hrest ih =>
    rw [List.findSome?_cons, List.findSome?_cons, hij.method?]
    cases i.file.method? name descriptor with
    | none => exact ih
    | some m => exact congrArg (fun n => some (n, m)) hij.name

end Class.Reordered

namespace Loader

/-- An interface has the same name and the same methods for two loaders. -/
def SameMethods (l l' : Loader) (a a' : MethodArea) (n : String) : Prop :=
  ∃ i i', (l.ensure n a).1 = .ok i ∧ (l'.ensure n a').1 = .ok i' ∧
    i'.file.methods = i.file.methods

section

variable {l l' : Loader} {a a' : MethodArea} {c c' : Class} {n name descriptor : String}

theorem SameMethods.symm (h : SameMethods l l' a a' n) : SameMethods l' l a' a n := by
  obtain ⟨i, i', hi, hi', hmethods⟩ := h
  exact ⟨i', i, hi', hi, hmethods.symm⟩

theorem ensure_name {i : Class} (h : (l.ensure n a).1 = .ok i) : i.name = n :=
  MethodArea.name_of_class? (ensure_class? (Prod.ext h rfl : l.ensure n a = (.ok i, _)))

theorem SameMethods.declaredBy {d : Class × Method} (h : SameMethods l l' a a' n)
    (hd : l.DeclaredBy a name descriptor n d) :
    ∃ d', l'.DeclaredBy a' name descriptor n d' ∧ Class.signature d' = Class.signature d := by
  obtain ⟨i, i', hi, hi', hmethods⟩ := h
  obtain ⟨k, m⟩ := d
  obtain rfl : k = i := Except.ok.inj (hd.1.symm.trans hi)
  have hm : i'.file.method? name descriptor = some m := by
    rw [← hd.2, ClassFile.method?, ClassFile.method?, hmethods]
  refine ⟨(i', m), ⟨hi', hm⟩, ?_⟩
  rw [Class.signature, Class.signature, ensure_name hi, ensure_name hi']

theorem SameMethods.declares (h : SameMethods l l' a a' n) :
    l'.declares a' name descriptor n = l.declares a name descriptor n := by
  obtain ⟨i, i', hi, hi', hmethods⟩ := h
  simp only [Loader.declares, hi, hi', ClassFile.method?, hmethods]

theorem declaring_reordered (hreordered : c.Reordered c')
    (hsame : ∀ n ∈ c.namedInterfaces, SameMethods l l' a a' n) :
    l'.declaring a' c' name descriptor = l.declaring a c name descriptor := by
  ext n
  simp only [declaring, Finset.mem_filter, List.mem_toFinset, hreordered.mem_namedInterfaces]
  refine and_congr_right fun hn => ?_
  rw [(hsame n hn).declares]

/-- A success remains one when interface names are reordered. -/
theorem resolveInterfaceMethod_reordered (ha : l.Sources a) (ha' : l'.Sources a')
    (hreordered : c.Reordered c') (hsame : ∀ n ∈ c.namedInterfaces, SameMethods l l' a a' n)
    {d : Class × Method} (h : (l.resolveInterfaceMethod c name descriptor a).1 = .ok d) :
    ∃ d', (l'.resolveInterfaceMethod c' name descriptor a').1 = .ok d' ∧
      Class.signature d' = Class.signature d := by
  have hload : ∀ n ∈ c.namedInterfaces, ∃ i, (l.ensure n a).1 = .ok i := by
    intro n hn
    obtain ⟨i, -, hi, -⟩ := hsame n hn
    exact ⟨i, hi⟩
  have hload' : ∀ n ∈ c'.namedInterfaces, ∃ i, (l'.ensure n a').1 = .ok i := by
    intro n hn
    obtain ⟨-, i', -, hi', -⟩ := hsame n ((hreordered.mem_namedInterfaces n).mp hn)
    exact ⟨i', hi'⟩
  have hanswer := resolveInterfaceMethod_answer name descriptor ha hload
  have hchains := hreordered.resolveMethod? name descriptor
  rw [h] at hanswer
  cases hanswer with
  | nearest hlineage hbelow hk =>
    rw [resolveMethod?_eq_some hlineage hbelow hk] at hchains
    obtain ⟨d', hd', hsignature⟩ := Option.map_eq_some_iff.mp hchains
    exact ⟨d', resolveInterfaceMethod_of_some hd', hsignature⟩
  | @only n _ hchain honly hd =>
    rw [resolveMethod?_eq_none.mpr hchain] at hchains
    have hchain' := resolveMethod?_eq_none.mp (Option.map_eq_none_iff.mp hchains)
    have hn : n ∈ c.namedInterfaces := by
      have hmem : n ∈ l.declaring a c name descriptor := honly ▸ Finset.mem_singleton_self n
      exact List.mem_toFinset.mp (Finset.mem_of_mem_filter n hmem)
    obtain ⟨d', hd', hsignature⟩ := (hsame n hn).declaredBy hd
    have honly' := (declaring_reordered hreordered hsame).trans honly
    refine ⟨d', ?_, hsignature⟩
    exact (MethodAnswer.only hchain' honly' hd').unique
      (resolveInterfaceMethod_answer name descriptor ha' hload')

end

end Loader

namespace Environment

variable {env : Environment} {a : MethodArea} {c : Class}

/-- Interface method resolution: for a class whose named interfaces can all be loaded, what comes
out is the nearest declaration in the superclass chain; failing that, it is the declaration of the
one interface of the chain that has one, and a failure when there is none or there are several.
Neither the order of the interface names in the chain nor naming one again makes a difference to the
declaration that is found. -/
theorem resolveInterfaceMethod_by_declaring (ha : MethodArea.Evolves env .empty a)
    (hload : ∀ n ∈ c.namedInterfaces, ∃ i, (env.loader.ensure n a).1 = .ok i)
    (name descriptor : String) :
    env.loader.MethodAnswer a c name descriptor
        (env.loader.resolveInterfaceMethod c name descriptor a).1 ∧
      ∀ {env' : Environment} {a' : MethodArea} {c' : Class}, MethodArea.Evolves env' .empty a' →
        c.Reordered c' →
        (∀ n ∈ c.namedInterfaces, Loader.SameMethods env.loader env'.loader a a' n) →
        (env'.loader.resolveInterfaceMethod c' name descriptor a').1.toOption.map Class.signature =
          (env.loader.resolveInterfaceMethod c name descriptor a).1.toOption.map
            Class.signature := by
  refine ⟨Loader.resolveInterfaceMethod_answer name descriptor ha.sources hload, ?_⟩
  intro env' a' c' ha' hreordered hsame
  cases hr : (env.loader.resolveInterfaceMethod c name descriptor a).1 with
  | ok d =>
    obtain ⟨d', hr', hsignature⟩ :=
      Loader.resolveInterfaceMethod_reordered ha.sources ha'.sources hreordered hsame hr
    rw [hr']
    exact congrArg some hsignature
  | error f =>
    cases hr' : (env'.loader.resolveInterfaceMethod c' name descriptor a').1 with
    | error f' => rfl
    | ok d' =>
      -- Undoing the reordering makes a success of the failure.
      have hsame' : ∀ n ∈ c'.namedInterfaces, Loader.SameMethods env'.loader env.loader a' a n :=
        fun n hn => (hsame n ((hreordered.mem_namedInterfaces n).mp hn)).symm
      obtain ⟨d, hr'', -⟩ :=
        Loader.resolveInterfaceMethod_reordered ha'.sources ha.sources hreordered.symm hsame' hr'
      rw [hr''] at hr
      cases hr

end Environment

def namingFile (name : String) (interfaceNames : List String) (methods : List Method) :
    ClassFile where
  minor := 0
  major := 52
  pool := ⟨#[none]⟩
  flags := 0x21
  thisClass := 0
  superClass := 0
  interfaces := []
  fields := []
  methods := methods
  attributes := []
  name := name
  superName := ""
  interfaceNames := interfaceNames

def namedMethod : Method := ⟨1, 0, 0, [], "m", "()V"⟩

/-- The interface `I` declares a method and the interface `J` does not. -/
def namingEnvironment : Environment where
  loader := ⟨fun name =>
    if name = "I" then .ok (namingFile "I" [] [namedMethod])
    else if name = "J" then .ok (namingFile "J" [] [])
    else .error (classNotFound name), 2⟩
  natives := .standard
  maxDepth := 1
  observed := false

/-- A class `C` below a class `B`, with the interface names of each. -/
def namingClass (namesOfC namesOfB : List String) : Class :=
  ⟨namingFile "C" namesOfC [], [namingFile "B" namesOfB []]⟩

/-- Both classes name the interface that declares the method, one of them twice. -/
theorem resolveInterfaceMethod_by_declaring_repeated :
    let l := namingEnvironment.loader
    let c := namingClass ["I", "J", "I"] ["J", "I"]
    let c' := namingClass ["J", "I"] ["I", "J", "J"]
    let i : Class := ⟨namingFile "I" [] [namedMethod], []⟩
    (∀ n ∈ c.namedInterfaces, ∃ i, (l.ensure n .empty).1 = .ok i) ∧
      l.declaring .empty c "m" "()V" = {"I"} ∧
      l.MethodAnswer .empty c "m" "()V" (.ok (i, namedMethod)) ∧
      (l.resolveInterfaceMethod c' "m" "()V" .empty).1.toOption.map Class.signature =
        some ("I", namedMethod) := by
  intro l c c' i
  have hI : (l.ensure "I" .empty).1 = .ok i := rfl
  have hJ : (l.ensure "J" .empty).1 = .ok ⟨namingFile "J" [] [], []⟩ := rfl
  have hnames : ∀ n ∈ c.namedInterfaces, n = "I" ∨ n = "J" := by
    decide
  have hsame : ∀ n ∈ c.namedInterfaces, Loader.SameMethods l l .empty .empty n := by
    intro n hn
    obtain rfl | rfl := hnames n hn
    · exact ⟨_, _, hI, hI, rfl⟩
    · exact ⟨_, _, hJ, hJ, rfl⟩
  have hload : ∀ n ∈ c.namedInterfaces, ∃ i, (l.ensure n .empty).1 = .ok i := by
    intro n hn
    obtain ⟨i, -, hi, -⟩ := hsame n hn
    exact ⟨i, hi⟩
  have hC : ∀ n, n ∈ ["J", "I"] ↔ n ∈ ["I", "J", "I"] := by
    intro n
    simp only [List.mem_cons, List.not_mem_nil]
    tauto
  have hB : ∀ n, n ∈ ["I", "J", "J"] ↔ n ∈ ["J", "I"] := by
    intro n
    simp only [List.mem_cons, List.not_mem_nil]
    tauto
  have hreordered : c.Reordered c' := .cons ⟨rfl, rfl, hC⟩ (.cons ⟨rfl, rfl, hB⟩ .nil)
  obtain ⟨hanswer, hsuccess⟩ := Environment.resolveInterfaceMethod_by_declaring
    (.refl namingEnvironment .empty) hload "m" "()V"
  refine ⟨hload, by decide, hanswer, ?_⟩
  rw [hsuccess (.refl namingEnvironment .empty) hreordered hsame]
  rfl

end Jvm
