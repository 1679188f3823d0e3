import Mathlib.Data.List.Nodup
import Jvm.Proofs.Machine.Effects

/-!
# Canonical strings

Asking for a content gives the string object that the table has for it, or makes one and notes it in
the table. Nothing is taken out of the table, so the canonical objects of equal contents are one
object, however far apart they are asked for, and those of different contents are two.
-/

namespace Jvm

open Effect

namespace World

/-! ### One content -/

/-- The canonical string object of a content, if it has been asked for. -/
def canonical? (w : World) (content : String) : Option Reference :=
  (w.strings.lookup content).map fun serial => .string content (.fresh serial)

theorem canonical?_eq_some {w : World} {content : String} {r : Reference} :
    w.canonical? content = some r ↔
      ∃ serial, w.strings.lookup content = some serial ∧ r = .string content (.fresh serial) := by
  simp only [canonical?, Option.map_eq_some_iff, eq_comm (a := r)]

/-- Asking for a content gives the object that it has, or makes one and notes it. -/
theorem intern_cases (content : String) (w : World) :
    (∃ serial, w.strings.lookup content = some serial ∧
      intern content w = (.ok (.string content (.fresh serial)), w)) ∨
    w.strings.lookup content = none ∧
      intern content w = (.ok (.string content (.fresh w.heap.freshStrings)),
        { w with
          heap := (w.heap.newString content).2
          strings := (content, w.heap.freshStrings) :: w.strings }) := by
  unfold intern
  cases w.strings.lookup content with
  | some serial => exact .inl ⟨serial, rfl, rfl⟩
  | none => exact .inr ⟨rfl, rfl⟩

/-- What comes of asking for a content: its canonical object from then on. If the content had one, it
is this one and nothing has changed; otherwise it is a new object. The other contents keep what they
had. -/
structure Interned (content : String) (w : World) (r : Reference) (w' : World) : Prop where
  canonical : w'.canonical? content = some r
  others : ∀ other, other ≠ content → w'.canonical? other = w.canonical? other
  same : ∀ old, w.canonical? content = some old → r = old ∧ w' = w
  new : w.canonical? content = none → r = (w.heap.newString content).1

theorem intern_spec (content : String) (w : World) :
    ∃ r w', intern content w = (.ok r, w') ∧ Interned content w r w' := by
  rcases intern_cases content w with ⟨serial, hlookup, hintern⟩ | ⟨hnone, hintern⟩
  · have hold := canonical?_eq_some.mpr ⟨serial, hlookup, rfl⟩
    refine ⟨_, w, hintern, hold, fun _ _ => rfl, fun old hsome => ?_, fun hnone => ?_⟩
    · rw [hold] at hsome
      exact ⟨Option.some_inj.mp hsome, rfl⟩
    · rw [hold] at hnone
      cases hnone
  · have habsent : w.canonical? content = none := by
      rw [canonical?, hnone]
      rfl
    refine ⟨_, _, hintern, ?_, fun other hother => ?_, fun old hsome => ?_, fun _ => rfl⟩
    · exact canonical?_eq_some.mpr ⟨_, List.lookup_cons_self, rfl⟩
    · have hne : (other == content) = false := beq_eq_false_iff_ne.mpr hother
      simp only [canonical?, List.lookup_cons, hne]
    · rw [habsent] at hsome
      cases hsome

theorem canonical?_intern {w : World} {c : String} {r : Reference} (h : w.canonical? c = some r)
    (content : String) : (intern content w).2.canonical? c = some r := by
  obtain ⟨r', w', hintern, hspec⟩ := intern_spec content w
  rw [hintern]
  by_cases hc : c = content
  · subst hc
    obtain ⟨rfl, -⟩ := hspec.same r h
    exact hspec.canonical
  · exact (hspec.others c hc).trans h

/-! ### The table -/

/-- The table has each content once and each string object once, and all of these have been made. -/
structure Canonical (w : World) : Prop where
  contents : (w.strings.map Prod.fst).Nodup
  objects : (w.strings.map Prod.snd).Nodup
  made : ∀ entry ∈ w.strings, entry.2 < w.heap.freshStrings

theorem Canonical.empty : Canonical .empty := ⟨.nil, .nil, nofun⟩

theorem Canonical.serial_inj {w : World} (h : w.Canonical) {a b : String} {serial : Nat}
    (ha : w.strings.lookup a = some serial) (hb : w.strings.lookup b = some serial) : a = b := by
  have hmem : ∀ {c : String}, w.strings.lookup c = some serial → (c, serial) ∈ w.strings := by
    intro c hc
    obtain ⟨before, after, hstrings, -⟩ := List.lookup_eq_some_iff.mp hc
    simp [hstrings]
  have heq := List.inj_on_of_nodup_map h.objects (hmem ha) (hmem hb) rfl
  exact congrArg Prod.fst heq

/-- The second world is one that the first has become: contents have kept their canonical objects, no
string object has been forgotten, and the table is as it should be. -/
structure Grows (w w' : World) : Prop where
  canonical : w'.Canonical
  kept {content : String} {r : Reference} (h : w.canonical? content = some r) :
    w'.canonical? content = some r
  made : w.heap.freshStrings ≤ w'.heap.freshStrings

namespace Grows

variable {w w' w'' : World}

theorem refl (h : w.Canonical) : Grows w w := ⟨h, id, Nat.le_refl _⟩

theorem trans (h : Grows w w') (h' : Grows w' w'') : Grows w w'' :=
  ⟨h'.canonical, fun hr => h'.kept (h.kept hr), Nat.le_trans h.made h'.made⟩

theorem of_eq (h : Grows w w') (hstrings : w''.strings = w'.strings)
    (hmade : w''.heap.freshStrings = w'.heap.freshStrings) : Grows w w'' where
  canonical := by
    refine ⟨?_, ?_, ?_⟩ <;> rw [hstrings]
    · exact h.canonical.contents
    · exact h.canonical.objects
    · rw [hmade]
      exact h.canonical.made
  kept hr := by
    unfold canonical?
    rw [hstrings]
    exact h.kept hr
  made := hmade ▸ h.made

/-- A string object that is made without being asked for is no canonical one. -/
theorem newString (h : Grows w w') (content : String) :
    Grows w (World.newString content w').2 where
  canonical := ⟨h.canonical.contents, h.canonical.objects,
    fun entry hentry => Nat.lt_succ_of_lt (h.canonical.made entry hentry)⟩
  kept := h.kept
  made := Nat.le_succ_of_le h.made

theorem intern (h : Grows w w') (content : String) : Grows w (World.intern content w').2 := by
  have hkept : ∀ {c r}, w.canonical? c = some r → (World.intern content w').2.canonical? c = some r :=
    fun hr => canonical?_intern (h.kept hr) content
  rcases intern_cases content w' with ⟨serial, hlookup, heq⟩ | ⟨hnone, heq⟩
  · rw [heq]
    exact h
  · rw [heq] at hkept ⊢
    -- The new object has the first number that no entry has.
    have habsent : content ∉ w'.strings.map Prod.fst := by
      intro hmem
      obtain ⟨entry, hentry, rfl⟩ := List.mem_map.mp hmem
      have hne := List.lookup_eq_none_iff.mp hnone entry hentry
      simp at hne
    have hnew : w'.heap.freshStrings ∉ w'.strings.map Prod.snd := by
      intro hmem
      obtain ⟨entry, hentry, heq⟩ := List.mem_map.mp hmem
      exact absurd (h.canonical.made entry hentry) (by omega)
    refine ⟨⟨?_, ?_, ?_⟩, hkept, Nat.le_succ_of_le h.made⟩
    · exact List.nodup_cons.mpr ⟨habsent, h.canonical.contents⟩
    · exact List.nodup_cons.mpr ⟨hnew, h.canonical.objects⟩
    · rw [List.forall_mem_cons]
      exact ⟨Nat.lt_succ_self _, fun entry hentry =>
        Nat.lt_succ_of_lt (h.canonical.made entry hentry)⟩

end Grows

/-! ### Several contents -/

theorem keeps_internAll {I : World → Prop} (h : ∀ content, Keeps I (intern content))
    (contents : List String) : Keeps I (internAll contents) := by
  induction contents with
  | nil => exact .pure trivial
  | cons content rest ih => exact (h content).bind fun _ => ih.bind fun _ => .pure trivial

/-- The objects that are given for several contents are, in order, the canonical ones from then
on. -/
theorem internAll_spec (contents : List String) (w : World) :
    ∃ rs w', internAll contents w = (.ok rs, w') ∧ contents.map w'.canonical? = rs.map some ∧
      ∀ {c r}, w.canonical? c = some r → w'.canonical? c = some r := by
  induction contents generalizing w with
  | nil => exact ⟨[], w, rfl, rfl, id⟩
  | cons content rest ih =>
    obtain ⟨r, v, hintern, hspec⟩ := intern_spec content w
    obtain ⟨rs, w', hrest, hmap, hkept⟩ := ih v
    refine ⟨r :: rs, w', ?_, ?_, fun hr => hkept ?_⟩
    · simp only [internAll, bind_apply, hintern, hrest]
      rfl
    · rw [List.map_cons, List.map_cons, hmap, hkept hspec.canonical]
    · have hold := canonical?_intern hr content
      rwa [hintern] at hold

theorem internAll_frame (contents : List String) (w : World) :
    ∃ strings made, (internAll contents w).2 =
      { w with heap := { w.heap with freshStrings := made }, strings } := by
  have hkept : ∀ content, Keeps (fun u : World => ∃ strings made, u =
      { w with heap := { w.heap with freshStrings := made }, strings }) (intern content) := by
    rintro content u ⟨strings, made, rfl⟩
    refine ⟨?_, fun _ _ => trivial⟩
    rcases intern_cases content
      { w with heap := { w.heap with freshStrings := made }, strings } with
      ⟨serial, -, heq⟩ | ⟨-, heq⟩
    · exact ⟨strings, made, by rw [heq]⟩
    · exact ⟨(content, made) :: strings, made + 1, by rw [heq]; rfl⟩
  exact (keeps_internAll hkept contents w ⟨_, _, rfl⟩).1

theorem internAll_canonical {contents : List String} {rs : List Reference} {w w' : World}
    (h : internAll contents w = (.ok rs, w')) : contents.map w'.canonical? = rs.map some := by
  obtain ⟨rs', v, hall, hmap, -⟩ := internAll_spec contents w
  rw [h] at hall
  cases hall
  exact hmap

/-- The array is one of strings, and its elements are the canonical objects of these contents, in
order. -/
def HasStrings (w : World) (array : Nat) (contents : List String) : Prop :=
  ∃ strings : List Reference,
    w.heap.arrays[array]? = some ⟨"Ljava/lang/String;", strings.map Value.reference⟩ ∧
      contents.map w.canonical? = strings.map some

theorem hasStrings_newArray {contents : List String} {strings : List Reference} {w w' : World}
    (h : internAll contents w = (.ok strings, w')) :
    (newArray "Ljava/lang/String;" (strings.map Value.reference) w').2.HasStrings
      w'.heap.arrays.size contents := by
  have hcanonical : contents.map w'.canonical? = strings.map some := internAll_canonical h
  exact ⟨strings, Array.getElem?_push_size, hcanonical⟩

theorem HasStrings.contents_eq {w : World} {array : Nat} {contents contents' : List String}
    (h : w.HasStrings array contents) (h' : w.HasStrings array contents') :
    contents = contents' := by
  obtain ⟨strings, harray, hcontents⟩ := h
  obtain ⟨strings', harray', hcontents'⟩ := h'
  obtain rfl : strings = strings' := by
    have hsame := harray.symm.trans harray'
    simpa [List.map_inj_right] using hsame
  clear harray harray'
  induction strings generalizing contents contents' with
  | nil => rw [List.map_eq_nil_iff.mp hcontents, List.map_eq_nil_iff.mp hcontents']
  | cons r strings ih =>
    obtain ⟨content, rest, rfl, hr, hrest⟩ := List.map_eq_cons_iff.mp hcontents
    obtain ⟨content', rest', rfl, hr', hrest'⟩ := List.map_eq_cons_iff.mp hcontents'
    obtain ⟨serial, -, rfl⟩ := canonical?_eq_some.mp hr
    obtain ⟨serial', -, heq⟩ := canonical?_eq_some.mp hr'
    cases heq
    rw [ih hrest hrest']

theorem exists_fresh_of_internAll {contents : List String} {rs : List Reference} {w w' : World}
    (h : internAll contents w = (.ok rs, w')) {r : Reference} (hr : r ∈ rs) :
    ∃ content serial, r = .string content (.fresh serial) := by
  have hmem : some r ∈ contents.map w'.canonical? := by
    rw [internAll_canonical h]
    exact List.mem_map_of_mem hr
  obtain ⟨content, -, hcontent⟩ := List.mem_map.mp hmem
  obtain ⟨serial, -, rfl⟩ := canonical?_eq_some.mp hcontent
  exact ⟨content, serial, rfl⟩

theorem Grows.internAll {w w' : World} (h : Grows w w') (contents : List String) :
    Grows w (World.internAll contents w').2 :=
  (keeps_internAll (fun content _ hu => ⟨hu.intern content, fun _ _ => trivial⟩) contents w' h).1

end World

end Jvm
