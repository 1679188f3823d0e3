import Jvm.Proofs.Machine.Provenance

/-!
# Searching for fields

The search for a field goes through a graph of interfaces that are loaded on the way and that may
name each other in a cycle. It remembers the names that it has visited and visits each of finitely
many at most once, so it ends. What it finds is declared above the class where it started.
-/

namespace Jvm

/-! ### The calls of a search -/

/-- Where a search stands: at a class, or before the interfaces of one that are left. -/
inductive SearchSite where
  | cls (c : Class)
  | interfaces (names : List String)

namespace Loader

/-- The calls that the search for a field makes, without any bound on their number. -/
inductive Searches (l : Loader) (name descriptor : String) : SearchSite → List String →
    MethodArea → Except Fault (Search (Class × Field)) → MethodArea → Prop where
  | visited {c : Class} {visited : List String} {a : MethodArea} (hvisited : c.name ∈ visited) :
    Searches l name descriptor (.cls c) visited a (.ok (none, visited)) a
  | own {c : Class} {f : Field} {visited : List String} {a : MethodArea}
    (hnew : c.name ∉ visited) (hfield : c.file.field? name descriptor = some f) :
    Searches l name descriptor (.cls c) visited a (.ok (some (c, f), c.name :: visited)) a
  | inherited {c : Class} {visited : List String} {a b : MethodArea}
    {r : Except Fault (Search (Class × Field))} (hnew : c.name ∉ visited)
    (hfield : c.file.field? name descriptor = none)
    (hinterfaces : Searches l name descriptor (.interfaces c.file.interfaceNames)
      (c.name :: visited) a r b)
    (hends : ∀ w, r ≠ .ok (none, w)) :
    Searches l name descriptor (.cls c) visited a r b
  | superclass {c p : Class} {visited w : List String} {a between b : MethodArea}
    {r : Except Fault (Search (Class × Field))} (hnew : c.name ∉ visited)
    (hfield : c.file.field? name descriptor = none)
    (hinterfaces : Searches l name descriptor (.interfaces c.file.interfaceNames)
      (c.name :: visited) a (.ok (none, w)) between)
    (hsuper : c.super? = some p) (hparent : Searches l name descriptor (.cls p) w between r b) :
    Searches l name descriptor (.cls c) visited a r b
  | root {c : Class} {visited w : List String} {a b : MethodArea} (hnew : c.name ∉ visited)
    (hfield : c.file.field? name descriptor = none)
    (hinterfaces : Searches l name descriptor (.interfaces c.file.interfaceNames)
      (c.name :: visited) a (.ok (none, w)) b)
    (hsuper : c.super? = none) :
    Searches l name descriptor (.cls c) visited a (.ok (none, w)) b
  | exhausted {visited : List String} {a : MethodArea} :
    Searches l name descriptor (.interfaces []) visited a (.ok (none, visited)) a
  | unloadable {n : String} {rest visited : List String} {a b : MethodArea} {f : Fault}
    (hload : l.ensure n a = (.error f, b)) :
    Searches l name descriptor (.interfaces (n :: rest)) visited a (.error f) b
  | ends {n : String} {rest visited : List String} {a between b : MethodArea} {i : Class}
    {r : Except Fault (Search (Class × Field))} (hload : l.ensure n a = (.ok i, between))
    (hinterface : Searches l name descriptor (.cls i) visited between r b)
    (hends : ∀ w, r ≠ .ok (none, w)) :
    Searches l name descriptor (.interfaces (n :: rest)) visited a r b
  | next {n : String} {rest visited w : List String} {a loaded between b : MethodArea} {i : Class}
    {r : Except Fault (Search (Class × Field))} (hload : l.ensure n a = (.ok i, loaded))
    (hinterface : Searches l name descriptor (.cls i) visited loaded (.ok (none, w)) between)
    (hrest : Searches l name descriptor (.interfaces rest) w between r b) :
    Searches l name descriptor (.interfaces (n :: rest)) visited a r b

/-- A search is at a class that the loader has. -/
def SiteLinkable (l : Loader) : SearchSite → Prop
  | .cls c => l.Linkable c.name c
  | .interfaces _ => True

section

variable {l : Loader} {name descriptor : String} {site : SearchSite} {visited : List String}
  {a b : MethodArea} {r : Except Fault (Search (Class × Field))}

theorem Searches.preserves {I : MethodArea → Prop}
    (h : l.Searches name descriptor site visited a r b) (hI : l.Preserves I) (ha : I a) : I b := by
  induction h with
  | visited | own | exhausted => exact ha
  | inherited hnew hfield hinterfaces hends ih => exact ih ha
  | superclass hnew hfield hinterfaces hsuper hparent ih ihparent => exact ihparent (ih ha)
  | root hnew hfield hinterfaces hsuper ih => exact ih ha
  | unloadable hload => exact (hI.ensure _).apply ha hload
  | ends hload hinterface hends ih => exact ih ((hI.ensure _).apply ha hload)
  | next hload hinterface hrest ih ihrest => exact ihrest (ih ((hI.ensure _).apply ha hload))

/-! ### Every search ends -/

/-- The names of at least `n` class files, each once. -/
structure Trail (l : Loader) (n : Nat) (visited : List String) : Prop where
  distinct : visited.Nodup
  files : ∀ v ∈ visited, ∃ file, l.classFile v = .ok file
  length : n ≤ visited.length

theorem Trail.nil (l : Loader) : l.Trail 0 [] :=
  ⟨List.nodup_nil, fun _ hv => (nomatch hv), Nat.le_refl 0⟩

theorem Trail.cons {n : Nat} {c : Class} (h : l.Trail n visited) (hnew : c.name ∉ visited)
    (hc : l.Linkable c.name c) : l.Trail (n + 1) (c.name :: visited) where
  distinct := List.nodup_cons.mpr ⟨hnew, h.distinct⟩
  files := List.forall_mem_cons.mpr ⟨hc.exists_file, h.files⟩
  length := Nat.succ_le_succ h.length

theorem Trail.pred {n : Nat} (h : l.Trail (n + 1) visited) : l.Trail n visited :=
  ⟨h.distinct, h.files, Nat.le_of_succ_le h.length⟩

theorem preserves_sources (l : Loader) : l.Preserves l.Sources :=
  fun _ name h => l.ensure_sources name h

theorem linkable_of_ensure_name {n : String} {i : Class} (ha : l.Sources a)
    (h : l.ensure n a = (.ok i, b)) : l.Linkable i.name i := by
  have hi := linkable_of_ensure ha h
  rwa [hi.name_eq]

theorem Searches.trail {n : Nat} (h : l.Searches name descriptor site visited a r b)
    (ha : l.Sources a) (hsite : l.SiteLinkable site) (htrail : l.Trail n visited)
    {found : Option (Class × Field)} {w : List String} (hr : r = .ok (found, w)) :
    l.Trail n w := by
  induction h generalizing n found w with
  | visited | exhausted =>
    cases hr
    exact htrail
  | own hnew hfield =>
    cases hr
    exact (htrail.cons hnew hsite).pred
  | inherited hnew hfield hinterfaces hends ih =>
    exact (ih ha trivial (htrail.cons hnew hsite) hr).pred
  | superclass hnew hfield hinterfaces hsuper hparent ih ihparent =>
    have hbetween := ih ha trivial (htrail.cons hnew hsite) rfl
    exact ihparent (hinterfaces.preserves l.preserves_sources ha) (hsite.parent hsuper)
      hbetween.pred hr
  | root hnew hfield hinterfaces hsuper ih =>
    exact (ih ha trivial (htrail.cons hnew hsite) hr).pred
  | unloadable hload => cases hr
  | ends hload hinterface hends ih =>
    exact ih ((l.preserves_sources.ensure _).apply ha hload) (linkable_of_ensure_name ha hload)
      htrail hr
  | next hload hinterface hrest ih ihrest =>
    have hloaded := (l.preserves_sources.ensure _).apply ha hload
    have hbetween := ih hloaded (linkable_of_ensure_name ha hload) htrail rfl
    exact ihrest (hinterface.preserves l.preserves_sources hloaded) trivial hbetween hr

theorem searches_interfaces {n : Nat}
    {search : Class → List String → Effect MethodArea (Search (Class × Field))}
    (hsearch : ∀ {i : Class} {visited : List String} {a : MethodArea}, l.Sources a →
      l.Linkable i.name i → l.Trail n visited →
      l.Searches name descriptor (.cls i) visited a (search i visited a).1 (search i visited a).2)
    (names : List String) {visited : List String} {a : MethodArea} (ha : l.Sources a)
    (htrail : l.Trail n visited) :
    l.Searches name descriptor (.interfaces names) visited a
      (l.searchInterfaces search names visited a).1
      (l.searchInterfaces search names visited a).2 := by
  induction names generalizing visited a with
  | nil => exact .exhausted
  | cons m rest ih =>
    simp only [searchInterfaces, Effect.bind_apply]
    rcases hload : l.ensure m a with ⟨f | i, loaded⟩
    · exact .unloadable hload
    · have hloaded := (l.preserves_sources.ensure _).apply ha hload
      have hi := linkable_of_ensure_name ha hload
      have hinterface := hsearch hloaded hi htrail
      dsimp only
      rcases hr : search i visited loaded with ⟨f | ⟨_ | found, w⟩, between⟩
      · rw [hr] at hinterface
        exact .ends hload hinterface fun w h => by cases h
      · rw [hr] at hinterface
        have hbetween := hinterface.preserves l.preserves_sources hloaded
        exact .next hload hinterface (ih hbetween (hinterface.trail hloaded hi htrail rfl))
      · rw [hr] at hinterface
        exact .ends hload hinterface fun w h => by cases h

theorem bound_le_searchFuel (l : Loader) (a : MethodArea) :
    l.bound + 2 ≤ 0 + l.searchFuel a := by
  unfold searchFuel
  omega

/-- With fuel for every name that can still be visited, the search is the recursion. -/
theorem searches_of_fuel (hbounded : l.Bounded) (name descriptor : String) (fuel : Nat) {n : Nat}
    {c : Class} {visited : List String} {a : MethodArea} (hfuel : l.bound + 2 ≤ n + fuel)
    (ha : l.Sources a) (hc : l.Linkable c.name c) (htrail : l.Trail n visited) :
    l.Searches name descriptor (.cls c) visited a
      (l.searchField name descriptor fuel c visited a).1
      (l.searchField name descriptor fuel c visited a).2 := by
  induction fuel generalizing n c visited a with
  | zero =>
    have hlength := hbounded.classFile_length htrail.distinct htrail.files
    have hleast := htrail.length
    omega
  | succ fuel ih =>
    by_cases hvisited : c.name ∈ visited
    · rw [searchField, if_pos (List.contains_iff_mem.mpr hvisited)]
      exact .visited hvisited
    · have hcontains : visited.contains c.name = false := by simpa using hvisited
      cases hfield : c.file.field? name descriptor with
      | some f =>
        rw [searchField, hcontains, hfield]
        exact .own hvisited hfield
      | none =>
        have htrail' := htrail.cons hvisited hc
        have hroom : l.bound + 2 ≤ n + 1 + fuel := by omega
        have hinterfaces := searches_interfaces (ih hroom) c.file.interfaceNames ha htrail'
        rw [searchField_succ l name descriptor fuel c visited hcontains hfield, Effect.bind_apply]
        rcases hr : l.searchInterfaces (l.searchField name descriptor fuel) c.file.interfaceNames
          (c.name :: visited) a with ⟨f | ⟨_ | found, w⟩, between⟩
        · rw [hr] at hinterfaces
          exact .inherited hvisited hfield hinterfaces fun w h => by cases h
        · rw [hr] at hinterfaces
          have hbetween := hinterfaces.preserves l.preserves_sources ha
          have hw := hinterfaces.trail ha trivial htrail' rfl
          cases hsuper : c.super? with
          | none => exact .root hvisited hfield hinterfaces hsuper
          | some p =>
            exact .superclass hvisited hfield hinterfaces hsuper
              (ih hroom hbetween (hc.parent hsuper) hw)
        · rw [hr] at hinterfaces
          exact .inherited hvisited hfield hinterfaces fun w h => by cases h

end

end Loader

/-! ### What is found -/

/-- `d` is the direct superclass of `c` or an interface that `c` names. -/
def MethodArea.Supertype (a : MethodArea) (c d : Class) : Prop :=
  c.super? = some d ∨ ∃ n ∈ c.file.interfaceNames, a.class? n = some d

/-- A class is above where a search stands. -/
def SearchSite.Below (a : MethodArea) : SearchSite → Class → Prop
  | .cls c, d => Relation.ReflTransGen a.Supertype c d
  | .interfaces names, d =>
    ∃ n ∈ names, ∃ i, a.class? n = some i ∧ Relation.ReflTransGen a.Supertype i d

namespace Loader

section

variable {l : Loader} {name descriptor : String} {site : SearchSite} {visited : List String}
  {a b : MethodArea} {r : Except Fault (Search (Class × Field))}

theorem Searches.extended (h : l.Searches name descriptor site visited a r b) : a.Extended b :=
  h.preserves (l.preserves_extended a) (.refl a)

/-- A field that is found is declared where it is said to be, above where the search started. -/
theorem Searches.declared (h : l.Searches name descriptor site visited a r b) {d : Class}
    {f : Field} {w : List String} (hr : r = .ok (some (d, f), w)) :
    d.file.field? name descriptor = some f ∧ site.Below b d := by
  induction h with
  | visited | exhausted | root | unloadable => cases hr
  | own hnew hfield =>
    cases hr
    exact ⟨hfield, .refl⟩
  | inherited hnew hfield hinterfaces hends ih =>
    obtain ⟨hdeclared, n, hn, i, hi, hbelow⟩ := ih hr
    exact ⟨hdeclared, .head (.inr ⟨n, hn, hi⟩) hbelow⟩
  | superclass hnew hfield hinterfaces hsuper hparent ih ihparent =>
    obtain ⟨hdeclared, hbelow⟩ := ihparent hr
    exact ⟨hdeclared, .head (.inl hsuper) hbelow⟩
  | ends hload hinterface hends ih =>
    obtain ⟨hdeclared, hbelow⟩ := ih hr
    have hi := hinterface.extended.class? (ensure_class? hload)
    exact ⟨hdeclared, _, List.mem_cons_self, _, hi, hbelow⟩
  | next hload hinterface hrest ih ihrest =>
    obtain ⟨hdeclared, n, hn, i, hi, hbelow⟩ := ihrest hr
    exact ⟨hdeclared, n, List.mem_cons_of_mem _ hn, i, hi, hbelow⟩

end

end Loader

end Jvm
