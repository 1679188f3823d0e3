import Mathlib
import Jvm.Machine.Runtime
import Jvm.Proofs.Descriptors
import Jvm.Proofs.Machine.Interning

/-!
# Entry points

The entry method of a program takes no parameters or the arguments of the program in an array of
strings. Which of the two it is, is read off the parameters as source code writes them, and there
packages are separated by points and dimensions stand behind the name. A class name in a descriptor
may have points and brackets of its own, so besides the array of strings there are other parameters
that look like it.
-/

namespace Jvm

/-! ### Names that look alike -/

/-- The characters that source code writes as a given one. -/
def characterSpellings (c : Char) : List Char :=
  if c = '.' then ['/', '.'] else if c = '/' then [] else [c]

/-- The class names that source code writes as a given one. -/
def nameSpellings : List Char → List (List Char)
  | [] => [[]]
  | c :: cs => (characterSpellings c).flatMap fun d => (nameSpellings cs).map (d :: ·)

theorem mem_characterSpellings {c d : Char} :
    d ∈ characterSpellings c ↔ (if d = '/' then '.' else d) = c := by
  unfold characterSpellings
  by_cases hd : d = '/'
  · subst hd
    by_cases hpoint : c = '.'
    · simp [hpoint]
    · by_cases hslash : c = '/'
      · simp [hslash]
      · simp [hpoint, hslash, Ne.symm hpoint, Ne.symm hslash]
  · rw [if_neg hd]
    split
    · rename_i hpoint
      simp [hpoint, hd]
    · split
      · rename_i hslash
        simp [hslash, hd]
      · simp

theorem mem_nameSpellings {cs ds : List Char} :
    ds ∈ nameSpellings cs ↔ ds.map (fun c => if c = '/' then '.' else c) = cs := by
  induction cs generalizing ds with
  | nil => simp [nameSpellings]
  | cons c cs ih =>
    cases ds with
    | nil => simp [nameSpellings]
    | cons d ds => simp [nameSpellings, mem_characterSpellings, ih]

theorem sourceName_eq_iff {name : String} {cs : List Char} :
    (sourceName name).toList = cs ↔ name.toList ∈ nameSpellings cs := by
  rw [sourceName, String.toList_ofList, mem_nameSpellings]

/-! ### Types that look like an array of strings -/

def stringArrayText : String := "java.lang.String[]"

namespace FieldType

/-- The types that source code writes as an array of strings: arrays of classes whose names look like
that of strings, and classes whose names look like that of an array of strings. -/
def stringArrayLookalikes : List FieldType :=
  (nameSpellings "java.lang.String".toList).map (fun name => ⟨.object (String.ofList name), 1⟩) ++
    (nameSpellings "java.lang.String[]".toList).map fun name => ⟨.object (String.ofList name), 0⟩

theorem toList_text (t : FieldType) :
    t.text.toList = t.element.text.toList ++ (List.replicate t.depth ['[', ']']).flatten := by
  rw [text, String.toList_append, String.toList_join, List.flatMap_replicate]
  rfl

theorem brackets_succ (n : Nat) :
    (List.replicate (n + 1) ['[', ']']).flatten =
      (List.replicate n ['[', ']']).flatten ++ ['[', ']'] := by
  rw [List.replicate_succ', List.flatten_append]
  rfl

theorem text_eq_stringArray_iff {t : FieldType} :
    t.text = stringArrayText ↔ t ∈ stringArrayLookalikes := by
  have hmem : t ∈ stringArrayLookalikes ↔
      (∃ name ∈ nameSpellings "java.lang.String".toList,
        ⟨.object (String.ofList name), 1⟩ = t) ∨
      ∃ name ∈ nameSpellings "java.lang.String[]".toList,
        ⟨.object (String.ofList name), 0⟩ = t := by
    simp only [stringArrayLookalikes, List.mem_append, List.mem_map]
  rw [hmem, ← String.toList_inj, toList_text]
  constructor
  · obtain ⟨e, depth⟩ := t
    intro h
    cases e with
    | object name =>
      have hsource {cs : List Char} (hcs : (sourceName name).toList = cs) :
          ∃ ds ∈ nameSpellings cs, String.ofList ds = name :=
        ⟨name.toList, sourceName_eq_iff.mp hcs, String.ofList_toList⟩
      -- Every dimension but the first would stand before the last one.
      rcases depth with _ | _ | depth
      · obtain ⟨ds, hds, rfl⟩ := hsource ((List.append_nil _).symm.trans h)
        exact .inr ⟨ds, hds, rfl⟩
      · have hname : (sourceName name).toList ++ ['[', ']'] =
            "java.lang.String".toList ++ ['[', ']'] := h
        obtain ⟨ds, hds, rfl⟩ := hsource (List.append_cancel_right hname)
        exact .inl ⟨ds, hds, rfl⟩
      · simp only [brackets_succ, ← List.append_assoc] at h
        have hname : (sourceName name).toList ++ (List.replicate depth ['[', ']']).flatten ++
            ['[', ']'] = "java.lang.String".toList := List.append_cancel_right h
        have hlast := congrArg List.getLast? hname
        rw [List.getLast?_append] at hlast
        cases hlast
    | _ => simp [ElementType.text, ElementType.baseName, stringArrayText] at h
  · rintro (⟨name, hname, rfl⟩ | ⟨name, hname, rfl⟩)
    · have hsource := sourceName_eq_iff.mpr ((String.toList_ofList (l := name)).symm ▸ hname)
      exact congrArg (· ++ ['[', ']']) hsource
    · have hsource := sourceName_eq_iff.mpr ((String.toList_ofList (l := name)).symm ▸ hname)
      exact (List.append_nil _).trans hsource

/-! ### Their descriptors -/

/-- A name with dots and brackets can stand in a descriptor like any other. -/
theorem wellFormed_of_spelling {cs ds : List Char} (depth : Nat) (hds : ds ∈ nameSpellings cs)
    (hne : cs ≠ []) (hsemicolon : ';' ∉ cs) :
    WellFormed ⟨.object (String.ofList ds), depth⟩ := by
  have hmap := mem_nameSpellings.mp hds
  refine ⟨?_, ?_⟩
  · rw [String.toList_ofList]
    rintro rfl
    exact hne hmap.symm
  · rw [String.toList_ofList]
    intro hmem
    exact hsemicolon (hmap ▸ List.mem_map.mpr ⟨';', hmem, rfl⟩)

theorem wellFormed_of_lookalike {t : FieldType} (ht : t ∈ stringArrayLookalikes) :
    t.WellFormed := by
  rcases List.mem_append.mp ht with ht | ht
  all_goals
    obtain ⟨ds, hds, rfl⟩ := List.mem_map.mp ht
    exact wellFormed_of_spelling _ hds (by decide) (by decide)

/-- The parameters that source code writes as an array of strings, as descriptors write them. -/
def stringArraySpellings : List String :=
  ["[Ljava/lang/String;", "[Ljava/lang.String;", "[Ljava.lang/String;", "[Ljava.lang.String;",
    "Ljava/lang/String[];", "Ljava/lang.String[];", "Ljava.lang/String[];",
    "Ljava.lang.String[];"]

theorem stringArraySpellings_eq :
    stringArraySpellings = stringArrayLookalikes.map fun t => String.ofList t.descriptor := by
  decide +kernel

end FieldType

namespace MethodDescriptor

def parameterPart (d : MethodDescriptor) : String :=
  String.ofList (d.parameters.flatMap FieldType.descriptor)

theorem parameters_injective {ts us : List FieldType} (hts : ∀ t ∈ ts, t.WellFormed)
    (hus : ∀ u ∈ us, u.WellFormed)
    (h : ts.flatMap FieldType.descriptor = us.flatMap FieldType.descriptor) : ts = us := by
  have hread := parametersOnto?_descriptors hts (Nat.le_max_left ts.length us.length) [] []
  rw [h, parametersOnto?_descriptors hus (Nat.le_max_right ts.length us.length)] at hread
  exact (congrArg Prod.fst (Option.some.inj hread)).symm

theorem parameterPart_eq_empty_iff (d : MethodDescriptor) :
    d.parameterPart = "" ↔ d.parameters = [] := by
  constructor
  · intro h
    have hnil : d.parameters.flatMap FieldType.descriptor = [] := String.ofList_injective h
    refine List.eq_nil_iff_forall_not_mem.mpr fun t ht => ?_
    exact t.descriptor_ne_nil (List.flatMap_eq_nil_iff.mp hnil t ht)
  · intro h
    rw [parameterPart, h]
    rfl

theorem parameterPart_mem_spellings_iff {d : MethodDescriptor} (hd : d.WellFormed) :
    d.parameterPart ∈ FieldType.stringArraySpellings ↔
      d.parameters.map FieldType.text = [stringArrayText] := by
  rw [FieldType.stringArraySpellings_eq]
  constructor
  · intro h
    obtain ⟨t, ht, hpart⟩ := List.mem_map.mp h
    have hsame : [t].flatMap FieldType.descriptor = d.parameters.flatMap FieldType.descriptor := by
      rw [List.flatMap_singleton]
      exact String.ofList_injective hpart
    have ht' : ∀ u ∈ [t], u.WellFormed :=
      List.forall_mem_singleton.mpr (FieldType.wellFormed_of_lookalike ht)
    rw [← parameters_injective ht' hd.parameters hsame, List.map_singleton,
      FieldType.text_eq_stringArray_iff.mpr ht]
  · intro h
    obtain ⟨t, hparameters, htext⟩ := List.map_eq_singleton_iff.mp h
    refine List.mem_map.mpr ⟨t, FieldType.text_eq_stringArray_iff.mp htext, ?_⟩
    rw [parameterPart, hparameters, List.flatMap_singleton]

end MethodDescriptor

/-! ### The check -/

theorem Effect.ofExcept_ok_bind {σ α β : Type} (a : α) (g : α → Effect σ β) :
    Effect.ofExcept (.ok a) >>= g = g a := rfl

namespace Runtime

def runApart (env : Environment) (fuel : Nat) (r : MemberRef) (values : List Value)
    (rt : Runtime) : Option (Except Fault Value × Runtime) :=
  let (number, rt) := rt.newThread
  (run env fuel r values rt).map fun (result, rt) => (result, rt.removeThread number)

def unsuitableEntry (r : MemberRef) : Fault :=
  typeMismatch ("entry point " ++ r.text ++ " must take no parameters or a String[]")

theorem entryArguments_eq (r : MemberRef) (arguments : List String) (w : World) :
    (∃ f, MethodDescriptor.parse r.descriptor = .error f ∧
      entryArguments r arguments w = (.error f, w)) ∨
    ∃ d, MethodDescriptor.parse r.descriptor = .ok d ∧
      ((d.parameterPart = "" ∧ entryArguments r arguments w = (.ok [], w)) ∨
      (d.parameterPart ∈ FieldType.stringArraySpellings ∧ d.parameterPart ≠ "" ∧
        ∃ w', entryArguments r arguments w = (.ok [.reference (.array w.heap.arrays.size)], w') ∧
          w'.HasStrings w.heap.arrays.size arguments) ∨
      (d.parameterPart ∉ FieldType.stringArraySpellings ∧ d.parameterPart ≠ "" ∧
        entryArguments r arguments w = (.error (unsuitableEntry r), w))) := by
  cases hparse : MethodDescriptor.parse r.descriptor with
  | error f =>
    refine .inl ⟨f, rfl, ?_⟩
    rw [entryArguments, hparse]
    rfl
  | ok d =>
    refine .inr ⟨d, rfl, ?_⟩
    have hwell := (MethodDescriptor.parse_eq_ok_iff.mp hparse).1
    rw [MethodDescriptor.parameterPart_mem_spellings_iff hwell, ne_eq,
      MethodDescriptor.parameterPart_eq_empty_iff]
    generalize hentry : entryArguments r arguments = m
    rw [entryArguments, hparse, Effect.ofExcept_ok_bind] at hentry
    split at hentry <;> subst hentry
    · rename_i hnone
      exact .inl ⟨List.map_eq_nil_iff.mp hnone, rfl⟩
    · rename_i hone
      refine .inr (.inl ⟨hone, fun hnil => by simp [hnil] at hone, ?_⟩)
      obtain ⟨strings, u, hall, -⟩ := World.internAll_spec arguments w
      obtain ⟨table, made, hframe⟩ := World.internAll_frame arguments w
      rw [hall] at hframe
      have hu : u = { w with heap := { w.heap with freshStrings := made }, strings := table } :=
        hframe
      have hsize : u.heap.arrays.size = w.heap.arrays.size := by rw [hu]
      have harray := World.hasStrings_newArray hall
      rw [Effect.bind_apply, hall, ← hsize]
      exact ⟨_, rfl, harray⟩
    · rename_i hnotNil hnotOne
      exact .inr (.inr ⟨hnotOne, fun hnil => hnotNil (by rw [hnil]; rfl), rfl⟩)

theorem entryArguments_passes_iff (r : MemberRef) (arguments : List String) (w : World) :
    (∃ values w', entryArguments r arguments w = (.ok values, w')) ↔
      ∃ d, MethodDescriptor.parse r.descriptor = .ok d ∧
        (d.parameterPart = "" ∨ d.parameterPart ∈ FieldType.stringArraySpellings) := by
  rcases entryArguments_eq r arguments w with ⟨f, hparse, hentry⟩ |
    ⟨d, hparse, ⟨hpart, hentry⟩ | ⟨hpart, -, w', hentry, -⟩ | ⟨hpart, hne, hentry⟩⟩
  · constructor
    · rintro ⟨values, w', h⟩
      cases hentry.symm.trans h
    · rintro ⟨d, hd, -⟩
      cases hparse.symm.trans hd
  · exact ⟨fun _ => ⟨d, hparse, .inl hpart⟩, fun _ => ⟨_, _, hentry⟩⟩
  · exact ⟨fun _ => ⟨d, hparse, .inr hpart⟩, fun _ => ⟨_, _, hentry⟩⟩
  · constructor
    · rintro ⟨values, w', h⟩
      cases hentry.symm.trans h
    · rintro ⟨d', hd, hpart'⟩
      cases hparse.symm.trans hd
      exact (hpart'.elim hne hpart).elim

theorem entryArguments_array_iff (r : MemberRef) (arguments : List String) (w : World) :
    (∃ k w', entryArguments r arguments w = (.ok [.reference (.array k)], w') ∧
        w.heap.arrays[k]? = none ∧ w'.HasStrings k arguments) ↔
      ∃ d, MethodDescriptor.parse r.descriptor = .ok d ∧
        d.parameterPart ∈ FieldType.stringArraySpellings := by
  constructor
  · rintro ⟨k, w', h, -⟩
    rcases entryArguments_eq r arguments w with ⟨f, -, hentry⟩ |
      ⟨d, hparse, ⟨-, hentry⟩ | ⟨hpart, -⟩ | ⟨-, -, hentry⟩⟩
    · cases hentry.symm.trans h
    · cases hentry.symm.trans h
    · exact ⟨d, hparse, hpart⟩
    · cases hentry.symm.trans h
  · rintro ⟨d, hd, hpart⟩
    rcases entryArguments_eq r arguments w with ⟨f, hparse, -⟩ |
      ⟨d', hparse, ⟨hnone, -⟩ | ⟨-, -, w', hentry, harray⟩ | ⟨hnot, -⟩⟩ <;>
      cases hparse.symm.trans hd
    · exact absurd (hnone ▸ hpart) (by decide)
    · exact ⟨_, w', hentry, Array.getElem?_eq_none (Nat.le_refl _), harray⟩
    · exact absurd hpart hnot

theorem entryArguments_eq_error {r : MemberRef} {arguments : List String} {w w' : World} {f : Fault}
    (h : entryArguments r arguments w = (.error f, w')) :
    w' = w ∧ (f = malformedDescriptor r.descriptor ∨ f = unsuitableEntry r) := by
  rcases entryArguments_eq r arguments w with ⟨g, hparse, hentry⟩ |
    ⟨d, hparse, ⟨-, hentry⟩ | ⟨-, -, w'', hentry, -⟩ | ⟨-, -, hentry⟩⟩ <;>
    cases hentry.symm.trans h
  · refine ⟨rfl, .inl ?_⟩
    unfold MethodDescriptor.parse at hparse
    split at hparse <;> cases hparse
    rfl
  · exact ⟨rfl, .inr rfl⟩

/-- An entry point passes the check exactly when its descriptor can be read and writes no parameters
or what looks like an array of strings in source code, which is one of eight texts. It is given the
arguments of the program, in order and in a new array of their canonical strings, exactly in the
second case. What passes the check is run with these values on a thread of its own; what does not
fails and leaves everything as it was. -/
theorem entry_check (env : Environment) (fuel : Nat) (r : MemberRef) (arguments : List String)
    (rt : Runtime) :
    ((∃ values w, entryArguments r arguments rt.world = (.ok values, w)) ↔
      ∃ d, MethodDescriptor.parse r.descriptor = .ok d ∧
        (d.parameterPart = "" ∨ d.parameterPart ∈ FieldType.stringArraySpellings)) ∧
    ((∃ k w, entryArguments r arguments rt.world = (.ok [.reference (.array k)], w) ∧
        rt.world.heap.arrays[k]? = none ∧ w.HasStrings k arguments) ↔
      ∃ d, MethodDescriptor.parse r.descriptor = .ok d ∧
        d.parameterPart ∈ FieldType.stringArraySpellings) ∧
    (∀ d, MethodDescriptor.parse r.descriptor = .ok d → ∃ result,
      r.descriptor = "(" ++ d.parameterPart ++ ")" ++ result) ∧
    (∀ values w, entryArguments r arguments rt.world = (.ok values, w) →
      runEntry env fuel r arguments rt = runApart env fuel r values { rt with world := w }) ∧
    (∀ f w, entryArguments r arguments rt.world = (.error f, w) →
      runEntry env fuel r arguments rt = some (.error f, rt) ∧
        (f = malformedDescriptor r.descriptor ∨ f = unsuitableEntry r)) := by
  refine ⟨entryArguments_passes_iff r arguments rt.world,
    entryArguments_array_iff r arguments rt.world, fun d hd => ?_, fun values w h => ?_,
    fun f w h => ?_⟩
  · refine ⟨String.ofList (MethodDescriptor.resultDescriptor d.result), ?_⟩
    have htext := (MethodDescriptor.parse_eq_ok_iff.mp hd).2
    rw [← String.toList_inj, ← htext, MethodDescriptor.descriptor_eq]
    simp [MethodDescriptor.parameterPart]
  · rw [runEntry, h]
    rfl
  · obtain ⟨rfl, hf⟩ := entryArguments_eq_error h
    rw [runEntry, h]
    exact ⟨rfl, hf⟩

/-- An array of strings whose name is written with points, in a fresh runtime: the two arguments are
handed over in a new array. -/
theorem entry_check_points (env : Environment) (fuel : Nat) :
    ∃ w, w.heap.arrays[0]? = some ⟨"Ljava/lang/String;",
        [.reference (.string "-v" (.fresh 0)), .reference (.string "x" (.fresh 1))]⟩ ∧
      runEntry env fuel ⟨"Main", "main", "([Ljava.lang.String;)V"⟩ ["-v", "x"] .empty =
        runApart env fuel ⟨"Main", "main", "([Ljava.lang.String;)V"⟩ [.reference (.array 0)]
          { Runtime.empty with world := w } := by
  obtain ⟨-, -, -, hpasses, -⟩ :=
    entry_check env fuel ⟨"Main", "main", "([Ljava.lang.String;)V"⟩ ["-v", "x"] .empty
  exact ⟨_, rfl, hpasses _ _ rfl⟩

/-- A parameter that is no array, of a class with brackets in its name, passes the check and is given
an array. -/
theorem entry_class_with_brackets :
    (∃ d, MethodDescriptor.parse "(Ljava/lang/String[];)I" = .ok d ∧
      d.parameters = [⟨.object "java/lang/String[]", 0⟩] ∧ d.parameterPart ≠ "" ∧
      d.parameterPart ≠ "[Ljava/lang/String;") ∧
    ∃ w, entryArguments ⟨"A", "run", "(Ljava/lang/String[];)I"⟩ ["x"] World.empty =
        (.ok [.reference (.array 0)], w) ∧
      w.heap.arrays[0]? =
        some ⟨"Ljava/lang/String;", [.reference (.string "x" (.fresh 0))]⟩ :=
  ⟨⟨_, rfl, rfl, by decide, by decide⟩, _, rfl, rfl⟩

end Runtime

end Jvm
