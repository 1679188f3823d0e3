import Jvm.Proofs.Machine.Loading

/-!
# The order of requests does not matter

A request gives the same answer whatever was asked for before it, well or in vain: what earlier
requests left in the area are classes that the request would have come to by itself, and a failure
leaves nothing behind.
-/

namespace Jvm

theorem LoadedClass.Fresh.eq {e e' : LoadedClass} (h : e.Fresh) (h' : e'.Fresh)
    (hcls : e.cls = e'.cls) : e = e' := by
  obtain ⟨cls, statics, started⟩ := e
  obtain ⟨cls', statics', started'⟩ := e'
  obtain ⟨hstatics, hstarted⟩ := h
  obtain ⟨hstatics', hstarted'⟩ := h'
  simp only at hcls hstatics hstarted hstatics' hstarted'
  subst hcls
  rw [hstatics] at hstatics'
  cases hstatics'
  rw [hstarted, hstarted']

namespace Loader

variable {l : Loader} {a b : MethodArea} {pending : List String} {name : String}
  {r : Except Fault Class}

theorem Loads.unique {r' : Except Fault Class} {b' : MethodArea} (h : Loads l a pending name r b)
    (h' : Loads l a pending name r' b') : r' = r ∧ b' = b := by
  induction h generalizing r' b' with
  | present hclass => cases h' <;> simp_all
  | circular hnew hpending => cases h' <;> simp_all
  | unreadable hnew hfirst hfile => cases h' <;> simp_all
  | root hnew hfirst hfile hsuper hlink =>
    cases h' with
    | root hnew' hfirst' hfile' hsuper' hlink' =>
      cases hfile.symm.trans hfile'
      cases hlink.symm.trans hlink'
      exact ⟨rfl, rfl⟩
    | _ => simp_all
  | derived hnew hfirst hfile hsuper hparent hlink ih =>
    cases h' with
    | derived hnew' hfirst' hfile' hsuper' hparent' hlink' =>
      cases hfile.symm.trans hfile'
      obtain ⟨hc, rfl⟩ := ih hparent'
      cases hc
      cases hlink.symm.trans hlink'
      exact ⟨rfl, rfl⟩
    | parentFails hnew' hfirst' hfile' hsuper' hparent' =>
      cases hfile.symm.trans hfile'
      cases (ih hparent').1
    | _ => simp_all
  | parentFails hnew hfirst hfile hsuper hparent ih =>
    cases h' with
    | derived hnew' hfirst' hfile' hsuper' hparent' hlink' =>
      cases hfile.symm.trans hfile'
      cases (ih hparent').1
    | parentFails hnew' hfirst' hfile' hsuper' hparent' =>
      cases hfile.symm.trans hfile'
      obtain ⟨hf, rfl⟩ := ih hparent'
      cases hf
      exact ⟨rfl, rfl⟩
    | _ => simp_all

/-- The class that the loader has under a name is loaded from it when nothing is there yet, unless
it is met on the way up to itself. -/
theorem Linkable.loads_empty {c : Class} (h : l.Linkable name c)
    (hdistinct : (c.lineage.map Class.name).Nodup)
    (hpending : ∀ n ∈ pending, n ∉ c.lineage.map Class.name) :
    ∃ b, Loads l .empty pending name (.ok c) b := by
  induction h generalizing pending with
  | @root name file statics hfile hsuper hstatics =>
    have hfirst : name ∉ pending := by
      intro hmem
      refine hpending name hmem ?_
      rw [← classFile_name hfile]
      exact List.mem_singleton_self _
    exact ⟨_, .root rfl hfirst hfile hsuper (MethodArea.link_of_statics hstatics _ _)⟩
  | @derived name file statics parent hfile hsuper hstatics hparent ih =>
    obtain ⟨habove, hdistinct⟩ := List.nodup_cons.mp hdistinct
    have hname : Class.name ⟨file, parent.file :: parent.ancestors⟩ = name := classFile_name hfile
    have hfirst : name ∉ pending := by
      intro hmem
      refine hpending name hmem ?_
      rw [← hname]
      exact List.mem_cons_self
    have hnext : ∀ n ∈ name :: pending, n ∉ parent.lineage.map Class.name := by
      intro n hmem
      rcases List.mem_cons.mp hmem with rfl | hmem
      · rw [← hname]
        exact habove
      · exact fun hn => hpending n hmem (List.mem_cons_of_mem _ hn)
    obtain ⟨between, hloads⟩ := ih hdistinct hnext
    exact ⟨_, .derived rfl hfirst hfile hsuper hloads (MethodArea.link_of_statics hstatics _ _)⟩

theorem absent_cons (hnew : a.class? name = none) (h : ∀ n ∈ pending, a.entry? n = none) :
    ∀ n ∈ name :: pending, a.entry? n = none := by
  intro n hn
  rcases List.mem_cons.mp hn with rfl | hn
  · exact MethodArea.class?_eq_none_iff.mp hnew
  · exact h n hn

/-- A request that finds classes in place gives the answer of the request that finds none: a class
in place is above everything that is pending, so loading it anew meets no pending class. -/
theorem Loads.anew (h : Loads l a pending name r b) (hlinked : a.Linked) (hsources : l.Sources a)
    (hpending : ∀ n ∈ pending, a.entry? n = none) : ∃ b', Loads l .empty pending name r b' := by
  induction h with
  | present hclass =>
    refine (hsources _ _ hclass).loads_empty (hlinked.lineage_nodup hclass) ?_
    intro n hn hmem
    obtain ⟨k, hk, rfl⟩ := List.mem_map.mp hmem
    have hloaded := hlinked.lineage hclass hk
    rw [MethodArea.class?_eq_none_iff.mpr (hpending _ hn)] at hloaded
    cases hloaded
  | circular hnew hmem => exact ⟨_, .circular rfl hmem⟩
  | unreadable hnew hfirst hfile => exact ⟨_, .unreadable rfl hfirst hfile⟩
  | root hnew hfirst hfile hsuper hlink =>
    obtain ⟨b', hlink'⟩ := MethodArea.link_elsewhere hlink .empty
    exact ⟨b', .root rfl hfirst hfile hsuper hlink'⟩
  | derived hnew hfirst hfile hsuper hparent hlink ih =>
    obtain ⟨between, hbetween⟩ := ih (absent_cons hnew hpending)
    obtain ⟨b', hlink'⟩ := MethodArea.link_elsewhere hlink between
    exact ⟨b', .derived rfl hfirst hfile hsuper hbetween hlink'⟩
  | parentFails hnew hfirst hfile hsuper hparent ih =>
    obtain ⟨between, hbetween⟩ := ih (absent_cons hnew hpending)
    exact ⟨_, .parentFails rfl hfirst hfile hsuper hbetween⟩

theorem Loads.entry?_eq {a' b' : MethodArea} (h : Loads l a pending name r b)
    (h' : Loads l a' pending name r b') (hsupplies : l.Supplies a) (hsupplies' : l.Supplies a') :
    b.entry? name = MethodArea.entry? b' name := by
  cases r with
  | error f => rw [h.entry?_of_error, h'.entry?_of_error]
  | ok c =>
    obtain ⟨e, hentry, rfl⟩ := MethodArea.class?_eq_some_iff.mp h.class?
    obtain ⟨e', hentry', hcls⟩ := MethodArea.class?_eq_some_iff.mp h'.class?
    have hfresh := (h.supplies hsupplies _ _ hentry).2
    have hfresh' := (h'.supplies hsupplies' _ _ hentry').2
    rw [hentry, hentry', hfresh'.eq hfresh hcls]

/-- Whatever is loaded, a request is answered as if it were the first. -/
theorem ensure_answer {l : Loader} (hbounded : l.Bounded) (hlinked : a.Linked)
    (hsources : l.Sources a) (name : String) : (l.ensure name a).1 = (l.ensure name .empty).1 := by
  have hloads := ensure_loads hbounded name a
  have hfirst := ensure_loads hbounded name .empty
  obtain ⟨b, hanew⟩ := hloads.anew hlinked hsources (fun n hn => nomatch hn)
  exact (hfirst.unique hanew).1

theorem ensure_eq_first {l : Loader} (hbounded : l.Bounded) (earlier : List String)
    (name : String) :
    (l.ensure name (l.areaAfter earlier)).1 = (l.ensure name .empty).1 ∧
      MethodArea.entry? (l.ensure name (l.areaAfter earlier)).2 name =
        MethodArea.entry? (l.ensure name .empty).2 name := by
  have hsupplies := l.areaAfter_supplies earlier
  have hr := ensure_answer hbounded (l.areaAfter_linked earlier) hsupplies.sources name
  have hloads := ensure_loads hbounded name (l.areaAfter earlier)
  have hfirst := ensure_loads hbounded name .empty
  refine ⟨hr, ?_⟩
  rw [hr] at hloads
  exact hloads.entry?_eq hfirst hsupplies (l.areaAfter_supplies [])

/-- Whatever was asked for before, a request over a library succeeds exactly when it does as the
first request. Then it gives the same class, with the same superclasses, layout of instances and
layout and initial values of static fields; and it fails with the same text. -/
theorem ensure_order_irrelevant (library : Library) (earlier : List String) (name : String) :
    let l := library.loader
    let later := l.ensure name (l.areaAfter earlier)
    let first := l.ensure name .empty
    ((∃ c, later.1 = .ok c) ↔ ∃ c, first.1 = .ok c) ∧
    (∀ c c', later.1 = .ok c → first.1 = .ok c' →
      c.name = c'.name ∧ c.lineage.map Class.name = c'.lineage.map Class.name ∧
      c.instanceSlot? = c'.instanceSlot? ∧ c.instanceDefaults = c'.instanceDefaults ∧
      c.staticSlot? = c'.staticSlot? ∧
      ∃ e e', MethodArea.entry? later.2 name = some e ∧ e.cls = c ∧
        MethodArea.entry? first.2 name = some e' ∧ e'.cls = c' ∧ e.statics = e'.statics) ∧
    (∀ f f', later.1 = .error f → first.1 = .error f' → f.message = f'.message) := by
  intro l later first
  obtain ⟨hanswer, hentry⟩ := ensure_eq_first library.loader_bounded earlier name
  have hanswer : later.1 = first.1 := hanswer
  have hentry : MethodArea.entry? later.2 name = MethodArea.entry? first.2 name := hentry
  refine ⟨?_, ?_, ?_⟩
  · rw [hanswer]
  · intro c c' hc hc'
    obtain rfl : c' = c := by
      rw [hanswer, hc'] at hc
      exact Except.ok.inj hc
    have hloaded : first.2.class? name = some c' := ensure_class? (Prod.ext hc' rfl)
    obtain ⟨e, he, hcls⟩ := MethodArea.class?_eq_some_iff.mp hloaded
    exact ⟨rfl, rfl, rfl, rfl, rfl, e, e, hentry.trans he, hcls, he, hcls, rfl⟩
  · intro f f' hf hf'
    rw [hanswer, hf'] at hf
    cases hf
    rfl

/-- After a request that failed and one for its superclass, `E` is what it is at first. -/
theorem ensure_order_irrelevant_cyclic :
    let l := cyclicLibrary.loader
    ∃ c c', (l.ensure "E" (l.areaAfter ["A", "D"])).1 = .ok c ∧ (l.ensure "E" .empty).1 = .ok c' ∧
      c'.lineage.map Class.name = ["E", "D", objectName] ∧
      c.lineage.map Class.name = c'.lineage.map Class.name := by
  refine ⟨_, _, rfl, rfl, rfl, ?_⟩
  have hagree := ensure_order_irrelevant cyclicLibrary ["A", "D"] "E"
  exact (hagree.2.1 _ _ rfl rfl).2.1

end Loader

end Jvm
