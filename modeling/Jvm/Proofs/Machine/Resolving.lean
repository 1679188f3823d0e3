import Jvm.Proofs.Machine.Effects
import Jvm.Proofs.Machine.Loading

/-!
# Resolving references

Resolution changes the method area by loading classes and in no other way, so it keeps whatever
loading keeps. A field that was found belongs to a loaded class, and looking for it again finds the
same one, whatever has been loaded in between.
-/

namespace Jvm

/-- What is loaded in `b` is loaded in `a`. -/
def MethodArea.Covers (a b : MethodArea) : Prop :=
  ∀ {name c}, b.class? name = some c → a.class? name = some c

namespace Loader

open Effect

def Preserves (l : Loader) (I : MethodArea → Prop) : Prop :=
  ∀ a name, I a → I (l.ensure name a).2

theorem preserves_linked (l : Loader) : l.Preserves MethodArea.Linked :=
  fun _ name h => l.ensure_linked name h

theorem preserves_extended (l : Loader) (a : MethodArea) : l.Preserves a.Extended :=
  fun b name h => h.trans (l.ensure_extended name b)

/-! ### Only loading changes the area -/

section

variable {l : Loader} {I : MethodArea → Prop}

theorem Preserves.ensure (h : l.Preserves I) (name : String) : Keeps I (l.ensure name) :=
  fun a ha => ⟨h a name ha, fun _ _ => trivial⟩

theorem Preserves.ensureAll (h : l.Preserves I) (names : List String) :
    Keeps I (l.ensureAll names) := by
  induction names with
  | nil => exact .pure trivial
  | cons name rest ih =>
    refine (h.ensure name).bind fun c => ?_
    exact ih.bind fun cs => .pure trivial

theorem Preserves.resolveInterfaceMethod (h : l.Preserves I) (c : Class)
    (name descriptor : String) : Keeps I (l.resolveInterfaceMethod c name descriptor) := by
  unfold Loader.resolveInterfaceMethod
  split
  · exact .pure trivial
  · refine (h.ensureAll _).bind fun interfaces => ?_
    dsimp only
    split
    · exact .fail _
    · exact .pure trivial
    · exact .fail _

theorem Preserves.searchInterfaces {α : Type} (h : l.Preserves I)
    {search : Class → List String → Effect MethodArea (Search α)}
    (hsearch : ∀ c visited, Keeps I (search c visited)) (names visited : List String) :
    Keeps I (l.searchInterfaces search names visited) := by
  induction names generalizing visited with
  | nil => exact .pure trivial
  | cons name rest ih =>
    refine (h.ensure name).bind fun i => (hsearch i visited).bind fun r => ?_
    obtain ⟨_ | found, visited'⟩ := r
    · exact ih visited'
    · exact .pure trivial

theorem Preserves.searchField (h : l.Preserves I) (name descriptor : String) (fuel : Nat)
    (c : Class) (visited : List String) :
    Keeps I (l.searchField name descriptor fuel c visited) := by
  induction fuel generalizing c visited with
  | zero => exact .fail _
  | succ fuel ih =>
    rw [Loader.searchField]
    split
    · exact .pure trivial
    · split
      · exact .pure trivial
      · refine (h.searchInterfaces ih _ _).bind fun r => ?_
        obtain ⟨found, visited'⟩ := r
        dsimp only
        split
        · exact .pure trivial
        · exact ih _ _
        · exact .pure trivial

theorem Preserves.resolveField (h : l.Preserves I) (c : Class) (name descriptor : String) :
    Keeps I (l.resolveField c name descriptor) := by
  refine Keeps.read.bind fun a => (h.searchField name descriptor _ c []).bind fun r => ?_
  obtain ⟨_ | found, visited⟩ := r
  · exact .fail _
  · exact .pure trivial

theorem Preserves.searchLineage (h : l.Preserves I) (target : String)
    {search : Class → List String → Effect MethodArea (Search Unit)}
    (hsearch : ∀ c visited, Keeps I (search c visited)) (classes : List Class)
    (visited : List String) : Keeps I (l.searchLineage target search classes visited) := by
  induction classes generalizing visited with
  | nil => exact .pure trivial
  | cons k rest ih =>
    rw [Loader.searchLineage]
    split
    · exact .pure trivial
    · split
      · exact ih visited
      · refine (h.searchInterfaces hsearch _ _).bind fun r => ?_
        obtain ⟨_ | found, visited'⟩ := r
        · exact ih visited'
        · exact .pure trivial

theorem Preserves.searchSupertype (h : l.Preserves I) (target : String) (fuel : Nat) (c : Class)
    (visited : List String) : Keeps I (l.searchSupertype target fuel c visited) := by
  induction fuel generalizing c visited with
  | zero => exact .fail _
  | succ fuel ih =>
    rw [Loader.searchSupertype]
    exact h.searchLineage target ih _ _

theorem Preserves.isAssignable (h : l.Preserves I) (c : Class) (target : String) :
    Keeps I (l.isAssignable c target) := by
  refine Keeps.read.bind fun a => (h.searchSupertype target _ c []).bind fun r => ?_
  exact .pure trivial

end

/-! ### Fields that were found -/

theorem searchField_succ (l : Loader) (name descriptor : String) (fuel : Nat) (c : Class)
    (visited : List String) (hvisited : visited.contains c.name = false)
    (hfield : c.file.field? name descriptor = none) :
    l.searchField name descriptor (fuel + 1) c visited = (do
      let (found, visited) ← l.searchInterfaces (l.searchField name descriptor fuel)
        c.file.interfaceNames (c.name :: visited)
      match found, c.super? with
      | some r, _ => return (some r, visited)
      | none, some parent => l.searchField name descriptor fuel parent visited
      | none, none => return (none, visited)) := by
  rw [Loader.searchField, hvisited, hfield]
  rfl

theorem searchInterfaces_class? {l : Loader}
    {search : Class → List String → Effect MethodArea (Search (Class × Field))}
    (hkeeps : ∀ c visited, Keeps MethodArea.Linked (search c visited))
    (hsearch : ∀ {c : Class} {visited visited' a b r}, MethodArea.Linked a →
      a.class? c.name = some c → search c visited a = (.ok (some r, visited'), b) →
      b.class? r.1.name = some r.1)
    {names visited visited' : List String} {a b : MethodArea} {r : Class × Field}
    (ha : a.Linked) (h : l.searchInterfaces search names visited a = (.ok (some r, visited'), b)) :
    b.class? r.1.name = some r.1 := by
  induction names generalizing visited a with
  | nil => cases h
  | cons name rest ih =>
    rw [searchInterfaces] at h
    obtain ⟨i, a₁, hensure, h⟩ := bind_eq_ok.mp h
    obtain ⟨⟨found, visited₁⟩, a₂, hfound, h⟩ := bind_eq_ok.mp h
    have ha₁ : a₁.Linked := (l.preserves_linked.ensure name).apply ha hensure
    have hi : a₁.class? i.name = some i := by
      have hclass := ensure_class? hensure
      rwa [MethodArea.name_of_class? hclass]
    cases found with
    | some r' =>
      cases h
      exact hsearch ha₁ hi hfound
    | none =>
      exact ih ((hkeeps i visited).apply ha₁ hfound) h

theorem searchField_class? {l : Loader} {name descriptor : String} (fuel : Nat) {c : Class}
    {visited visited' : List String} {a b : MethodArea} {r : Class × Field} (ha : a.Linked)
    (hc : a.class? c.name = some c)
    (h : l.searchField name descriptor fuel c visited a = (.ok (some r, visited'), b)) :
    b.class? r.1.name = some r.1 := by
  induction fuel generalizing c visited visited' a b r with
  | zero => cases h
  | succ fuel ih =>
    cases hvisited : visited.contains c.name with
    | true =>
      rw [searchField, if_pos hvisited] at h
      cases h
    | false =>
      cases hfield : c.file.field? name descriptor with
      | some f =>
        rw [searchField, hvisited, hfield] at h
        cases h
        exact hc
      | none =>
        rw [searchField_succ l name descriptor fuel c visited hvisited hfield] at h
        obtain ⟨⟨found, visited₁⟩, a₁, hfound, h⟩ := bind_eq_ok.mp h
        have hkeeps := l.preserves_linked.searchField name descriptor fuel
        cases found with
        | some r' =>
          cases h
          exact searchInterfaces_class? hkeeps ih ha hfound
        | none =>
          have ha₁ : a₁.Linked := (l.preserves_linked.searchInterfaces hkeeps _ _).apply ha hfound
          have hsearch := (l.preserves_extended a).searchField name descriptor fuel
          have hextended : a.Extended a₁ :=
            ((l.preserves_extended a).searchInterfaces hsearch _ _).apply (.refl a) hfound
          cases hsuper : c.super? with
          | none =>
            rw [hsuper] at h
            cases h
          | some parent =>
            rw [hsuper] at h
            have hne : c.file.superName ≠ "" := by
              intro heq
              rw [ha.super_none hc heq] at hsuper
              cases hsuper
            obtain ⟨parent', hparent, hloaded⟩ := ha₁.super_some (hextended.class? hc) hne
            rw [hsuper] at hparent
            cases hparent
            refine ih ha₁ ?_ h
            rwa [MethodArea.name_of_class? hloaded]

theorem resolveField_class? {l : Loader} {c : Class} {name descriptor : String} {a b : MethodArea}
    {r : Class × Field} (ha : a.Linked) (hc : a.class? c.name = some c)
    (h : l.resolveField c name descriptor a = (.ok r, b)) : b.class? r.1.name = some r.1 := by
  rw [resolveField] at h
  obtain ⟨a', _, hread, h⟩ := bind_eq_ok.mp h
  cases hread
  obtain ⟨⟨found, visited⟩, b', hfound, h⟩ := bind_eq_ok.mp h
  cases found with
  | none => cases h
  | some r' =>
    cases h
    exact searchField_class? _ ha hc hfound

/-! ### Looking again -/

section

variable {l : Loader} {a a' b : MethodArea}

theorem ensure_again {name : String} {c : Class} (h : l.ensure name a = (.ok c, b))
    (hcovers : a'.Covers b) : l.ensure name a' = (.ok c, a') :=
  l.ensure_of_class? (hcovers (ensure_class? h))

theorem searchInterfaces_again {α : Type}
    {search search' : Class → List String → Effect MethodArea (Search α)}
    (hkeeps : ∀ a c visited, Keeps (MethodArea.Extended a) (search c visited))
    (hsearch : ∀ {c visited r a b}, search c visited a = (.ok r, b) → a'.Covers b →
      search' c visited a' = (.ok r, a'))
    {names visited : List String} {r : Search α}
    (h : l.searchInterfaces search names visited a = (.ok r, b)) (hcovers : a'.Covers b) :
    l.searchInterfaces search' names visited a' = (.ok r, a') := by
  induction names generalizing visited a with
  | nil =>
    cases h
    rfl
  | cons name rest ih =>
    rw [searchInterfaces] at h ⊢
    obtain ⟨i, a₁, hensure, h⟩ := bind_eq_ok.mp h
    obtain ⟨⟨found, visited₁⟩, a₂, hfound, h⟩ := bind_eq_ok.mp h
    have hsearched : a₁.Extended a₂ := (hkeeps a₁ i visited).apply (.refl a₁) hfound
    have hrest : a₂.Extended b := by
      cases found with
      | some x =>
        cases h
        exact .refl _
      | none =>
        exact ((l.preserves_extended a₂).searchInterfaces (hkeeps a₂) rest visited₁).apply
          (.refl a₂) h
    refine bind_eq_ok.mpr ⟨i, a', ?_, bind_eq_ok.mpr ⟨(found, visited₁), a', ?_, ?_⟩⟩
    · exact ensure_again hensure fun hclass =>
        hcovers (hrest.class? (hsearched.class? hclass))
    · exact hsearch hfound fun hclass => hcovers (hrest.class? hclass)
    · cases found with
      | some x =>
        cases h
        rfl
      | none => exact ih h

/-- A search that has come to an answer comes to it again with nothing left to load. -/
theorem searchField_again {name descriptor : String} (fuel : Nat) {fuel' : Nat} {c : Class}
    {visited : List String} {r : Search (Class × Field)}
    (h : l.searchField name descriptor fuel c visited a = (.ok r, b)) (hcovers : a'.Covers b)
    (hfuel : fuel ≤ fuel') :
    l.searchField name descriptor fuel' c visited a' = (.ok r, a') := by
  induction fuel generalizing fuel' c visited r a b with
  | zero => cases h
  | succ fuel ih =>
    obtain ⟨more, rfl⟩ := Nat.exists_eq_add_of_lt hfuel
    cases hvisited : visited.contains c.name with
    | true =>
      rw [searchField, if_pos hvisited] at h ⊢
      cases h
      rfl
    | false =>
      cases hfield : c.file.field? name descriptor with
      | some f =>
        rw [searchField, hvisited, hfield] at h ⊢
        cases h
        rfl
      | none =>
        rw [searchField_succ l name descriptor _ c visited hvisited hfield] at h ⊢
        obtain ⟨⟨found, visited₁⟩, a₁, hfound, h⟩ := bind_eq_ok.mp h
        have hkeeps : ∀ a c visited,
            Keeps (MethodArea.Extended a) (l.searchField name descriptor fuel c visited) :=
          fun a => (l.preserves_extended a).searchField name descriptor fuel
        have hrest : a₁.Extended b := by
          cases found with
          | some x =>
            cases h
            exact .refl _
          | none =>
            cases hsuper : c.super? with
            | none =>
              rw [hsuper] at h
              cases h
              exact .refl _
            | some parent =>
              rw [hsuper] at h
              exact (hkeeps a₁ parent visited₁).apply (.refl a₁) h
        have hagain := searchInterfaces_again hkeeps
          (fun hfound hcovers => ih hfound hcovers (Nat.le_add_right fuel more)) hfound
          fun hclass => hcovers (hrest.class? hclass)
        refine bind_eq_ok.mpr ⟨(found, visited₁), a', hagain, ?_⟩
        cases found with
        | some x =>
          cases h
          rfl
        | none =>
          cases hsuper : c.super? with
          | none =>
            rw [hsuper] at h
            cases h
            rfl
          | some parent =>
            rw [hsuper] at h
            exact ih h hcovers (by omega)

theorem resolveField_again {c : Class} {name descriptor : String} {r : Class × Field}
    (h : l.resolveField c name descriptor a = (.ok r, b)) (hcovers : a'.Covers b)
    (hlength : a.classes.length ≤ a'.classes.length) :
    l.resolveField c name descriptor a' = (.ok r, a') := by
  rw [resolveField] at h ⊢
  obtain ⟨_, _, hread, h⟩ := bind_eq_ok.mp h
  cases hread
  obtain ⟨⟨found, visited⟩, b', hfound, h⟩ := bind_eq_ok.mp h
  have hfuel : l.searchFuel a ≤ l.searchFuel a' := by
    unfold searchFuel
    omega
  cases found with
  | none => cases h
  | some r' =>
    cases h
    have hagain := searchField_again _ hfound hcovers hfuel
    exact bind_eq_ok.mpr ⟨a', a', rfl, bind_eq_ok.mpr ⟨_, a', hagain, rfl⟩⟩

end

end Loader

end Jvm
