import Jvm.Descriptor
import Mathlib.Computability.Language
import Mathlib.Data.List.TakeWhile

/-!
# The grammar of descriptors

A type can be written as a descriptor when its class name is not empty and has no semicolon. Reading
and writing are inverse to each other on the types that can be written, and nothing else is
accepted, so the words of the grammar are exactly the texts that are read.

The grammar is a language in the usual sense: a single letter, union, concatenation and repetition.
It is stated over any alphabet whose symbols stand for characters, so it says the same of strings of
characters and of strings of bytes. A class name may hold brackets and parentheses; only the
semicolon ends it.
-/

namespace Jvm

/-! ### Descriptors that can be written -/

/-- A class name in a descriptor is not empty and has no semicolon. -/
def ElementType.WellFormed : ElementType → Prop
  | .object name => name.toList ≠ [] ∧ ';' ∉ name.toList
  | _ => True

/-- The element type can be written. -/
def FieldType.WellFormed (t : FieldType) : Prop := t.element.WellFormed

structure MethodDescriptor.WellFormed (d : MethodDescriptor) : Prop where
  parameters : ∀ t ∈ d.parameters, t.WellFormed
  result : ∀ t ∈ d.result, t.WellFormed

/-! ### Field types from the front -/

theorem ElementType.ofLetter?_eq_some {c : Char} {e : ElementType} (h : ofLetter? c = some e) :
    e.WellFormed ∧ e.descriptor = [c] := by
  unfold ofLetter? at h
  split at h
  case h_9 => cases h
  all_goals
    cases h
    exact ⟨trivial, rfl⟩

theorem cut_at_semicolon {cs after : List Char} {c : Char}
    (h : cs.dropWhile (· ≠ ';') = c :: after) :
    cs = cs.takeWhile (· ≠ ';') ++ ';' :: after ∧ ';' ∉ cs.takeWhile (· ≠ ';') := by
  have hne : cs.dropWhile (· ≠ ';') ≠ [] := by
    rw [h]
    exact List.cons_ne_nil _ _
  have hc : c = ';' := by
    have hhead := List.head_dropWhile_not (· ≠ ';') hne
    simp only [h, List.head_cons] at hhead
    simpa using hhead
  subst hc
  refine ⟨?_, fun hmem => ?_⟩
  · rw [← h, List.takeWhile_append_dropWhile]
  · simpa using List.mem_takeWhile_imp hmem

theorem takeWhile_semicolon {name : List Char} (h : ';' ∉ name) (after : List Char) :
    (name ++ ';' :: after).takeWhile (· ≠ ';') = name ∧
      (name ++ ';' :: after).dropWhile (· ≠ ';') = ';' :: after := by
  have hname : ∀ c ∈ name, decide (c ≠ ';') = true := by
    intro c hc
    simp only [ne_eq, decide_eq_true_eq]
    rintro rfl
    exact h hc
  rw [List.takeWhile_append_of_pos hname, List.dropWhile_append_of_pos hname]
  simp

namespace FieldType

/-- What is read from the front is a type that can be written, and is what is written for it. -/
theorem frontBelow?_eq_some {depth : Nat} {cs rest : List Char} {t : FieldType}
    (h : frontBelow? depth cs = some (t, rest)) :
    ∃ n, t.depth = depth + n ∧ t.WellFormed ∧
      cs = List.replicate n '[' ++ t.element.descriptor ++ rest := by
  fun_induction frontBelow? depth cs with
  | case1 | case3 | case5 => cases h
  | case2 depth cs ih =>
    obtain ⟨n, hdepth, ht, hcs⟩ := ih h
    refine ⟨n + 1, by omega, ht, ?_⟩
    rw [hcs, List.replicate_succ]
    rfl
  | case4 depth cs name c after hafter hname =>
    cases h
    obtain ⟨hcs, hsemicolon⟩ := cut_at_semicolon hafter
    refine ⟨0, rfl, ⟨?_, ?_⟩, ?_⟩
    · rw [String.toList_ofList]
      simpa using hname
    · rwa [String.toList_ofList]
    · show 'L' :: cs = 'L' :: (String.ofList name).toList ++ [';'] ++ rest
      rw [String.toList_ofList, hcs]
      simp [name]
  | case6 depth c cs =>
    obtain ⟨e, he, ht⟩ := Option.bind_eq_some_iff.mp h
    cases ht
    obtain ⟨hwell, hdescriptor⟩ := ElementType.ofLetter?_eq_some he
    refine ⟨0, rfl, hwell, ?_⟩
    rw [hdescriptor]
    rfl

/-- A type that can be written is read from the front, whatever follows it. -/
theorem frontBelow?_descriptor {e : ElementType} (he : e.WellFormed) (depth n : Nat)
    (rest : List Char) :
    frontBelow? depth (List.replicate n '[' ++ e.descriptor ++ rest) =
      some (⟨e, depth + n⟩, rest) := by
  induction n generalizing depth with
  | zero =>
    cases e with
    | object name =>
      obtain ⟨hne, hsemicolon⟩ := he
      obtain ⟨htake, hdrop⟩ := takeWhile_semicolon hsemicolon rest
      have hcs : List.replicate 0 '[' ++ (ElementType.object name).descriptor ++ rest =
          'L' :: (name.toList ++ ';' :: rest) := by
        simp [ElementType.descriptor]
      have hname : name.toList.isEmpty = false := by simpa using hne
      rw [hcs, frontBelow?, htake, hdrop]
      simp [hname]
    | _ => rfl
  | succ n ih =>
    rw [List.replicate_succ, List.cons_append, List.cons_append, frontBelow?, ih]
    congr 3
    omega

theorem front?_descriptor {t : FieldType} (ht : t.WellFormed) (rest : List Char) :
    front? (t.descriptor ++ rest) = some (t, rest) := by
  have hfront := frontBelow?_descriptor ht 0 t.depth rest
  rw [Nat.zero_add] at hfront
  exact hfront

theorem front?_eq_some_iff {cs rest : List Char} {t : FieldType} :
    front? cs = some (t, rest) ↔ t.WellFormed ∧ cs = t.descriptor ++ rest := by
  constructor
  · intro h
    obtain ⟨n, hdepth, ht, hcs⟩ := frontBelow?_eq_some h
    obtain rfl : t.depth = n := by omega
    exact ⟨ht, hcs⟩
  · rintro ⟨ht, rfl⟩
    exact front?_descriptor ht rest

theorem ofChars?_eq_some_iff {cs : List Char} {t : FieldType} :
    ofChars? cs = some t ↔ t.WellFormed ∧ t.descriptor = cs := by
  have hwhole : ofChars? cs = some t ↔ front? cs = some (t, []) := by
    unfold ofChars?
    rcases front? cs with _ | ⟨u, _ | ⟨c, rest⟩⟩ <;> simp
  rw [hwhole, front?_eq_some_iff, List.append_nil, eq_comm (a := cs)]

theorem descriptor_ne_nil (t : FieldType) : t.descriptor ≠ [] := by
  obtain ⟨e, depth⟩ := t
  cases e <;> simp [descriptor, ElementType.descriptor]

/-- No field descriptor can be taken for the end of the parameters. -/
theorem head_descriptor (t : FieldType) (rest cs : List Char) :
    t.descriptor ++ rest ≠ ')' :: cs := by
  obtain ⟨e, _ | depth⟩ := t
  · cases e <;> simp [descriptor, ElementType.descriptor, ElementType.letter]
  · simp [descriptor, List.replicate_succ]

theorem parse_eq_ok_iff {s : String} {t : FieldType} :
    parse s = .ok t ↔ t.WellFormed ∧ t.descriptor = s.toList := by
  rw [← ofChars?_eq_some_iff, parse]
  cases ofChars? s.toList with
  | none => exact ⟨nofun, nofun⟩
  | some u => exact ⟨fun h => by cases h; rfl, fun h => by cases h; rfl⟩

end FieldType

/-! ### Method descriptors -/

namespace MethodDescriptor

theorem parametersOnto?_eq_some {fuel : Nat} {acc ts : List FieldType} {cs rest : List Char}
    (h : parametersOnto? fuel acc cs = some (ts, rest)) :
    ∃ new, ts = acc.reverse ++ new ∧ (∀ t ∈ new, t.WellFormed) ∧
      cs = new.flatMap FieldType.descriptor ++ ')' :: rest := by
  fun_induction parametersOnto? fuel acc cs with
  | case1 =>
    cases h
    exact ⟨[], by simp, by simp, rfl⟩
  | case2 | case4 => cases h
  | case3 acc cs hclosed fuel t after hfront ih =>
    obtain ⟨new, rfl, hnew, rfl⟩ := ih h
    obtain ⟨ht, hcs⟩ := FieldType.front?_eq_some_iff.mp hfront
    refine ⟨t :: new, by simp, List.forall_mem_cons.mpr ⟨ht, hnew⟩, ?_⟩
    rw [hcs, List.flatMap_cons, List.append_assoc]

theorem parametersOnto?_descriptors {new : List FieldType} (hnew : ∀ t ∈ new, t.WellFormed)
    {fuel : Nat} (hfuel : new.length ≤ fuel) (acc : List FieldType) (rest : List Char) :
    parametersOnto? fuel acc (new.flatMap FieldType.descriptor ++ ')' :: rest) =
      some (acc.reverse ++ new, rest) := by
  induction new generalizing fuel acc with
  | nil =>
    rw [List.append_nil]
    cases fuel <;> rfl
  | cons t new ih =>
    obtain ⟨ht, hnew⟩ := List.forall_mem_cons.mp hnew
    obtain ⟨fuel, rfl⟩ := Nat.exists_eq_add_one.mpr (Nat.lt_of_lt_of_le (Nat.zero_lt_succ _) hfuel)
    rw [List.flatMap_cons, List.append_assoc, parametersOnto?, FieldType.front?_descriptor ht]
    · simp only [ih hnew (Nat.le_of_succ_le_succ hfuel), List.reverse_cons, List.append_assoc,
        List.singleton_append]
    · exact fun cs => t.head_descriptor _ cs

theorem length_le_descriptors (ts : List FieldType) :
    ts.length ≤ (ts.flatMap FieldType.descriptor).length := by
  induction ts with
  | nil => exact Nat.le_refl 0
  | cons t ts ih =>
    have hpos := List.length_pos_iff.mpr t.descriptor_ne_nil
    rw [List.flatMap_cons, List.length_append, List.length_cons]
    omega

def resultDescriptor : Option FieldType → List Char
  | some t => t.descriptor
  | none => ['V']

theorem descriptor_eq (d : MethodDescriptor) :
    d.descriptor =
      '(' :: (d.parameters.flatMap FieldType.descriptor ++ ')' :: resultDescriptor d.result) := by
  obtain ⟨parameters, _ | t⟩ := d <;> rfl

theorem result?_eq_some_iff {cs : List Char} {result : Option FieldType} :
    result? cs = some result ↔ (∀ t ∈ result, t.WellFormed) ∧ resultDescriptor result = cs := by
  unfold result?
  split
  · -- No field descriptor is a lone `V`.
    cases result with
    | none => simp [resultDescriptor]
    | some t =>
      have hnone : FieldType.ofChars? ['V'] = none := rfl
      have hV : ¬ (t.WellFormed ∧ t.descriptor = ['V']) := by
        rw [← FieldType.ofChars?_eq_some_iff, hnone]
        exact nofun
      simpa [resultDescriptor] using hV
  · rename_i hV
    cases result with
    | none => simpa [resultDescriptor] using fun heq : ['V'] = cs => hV heq.symm
    | some t => simp [resultDescriptor, FieldType.ofChars?_eq_some_iff]

theorem ofChars?_eq_some_iff {cs : List Char} {d : MethodDescriptor} :
    ofChars? cs = some d ↔ d.WellFormed ∧ d.descriptor = cs := by
  constructor
  · intro h
    unfold ofChars? at h
    split at h
    · rename_i inner
      obtain ⟨⟨parameters, after⟩, hparameters, h⟩ := Option.bind_eq_some_iff.mp h
      obtain ⟨result, hresult, h⟩ := Option.bind_eq_some_iff.mp h
      cases h
      obtain ⟨new, hnew, hwell, rfl⟩ := parametersOnto?_eq_some hparameters
      obtain ⟨hresultWell, rfl⟩ := result?_eq_some_iff.mp hresult
      rw [List.reverse_nil, List.nil_append] at hnew
      subst hnew
      exact ⟨⟨hwell, hresultWell⟩, descriptor_eq _⟩
    · cases h
  · rintro ⟨⟨hparameters, hresult⟩, rfl⟩
    have hfuel : d.parameters.length ≤ (d.parameters.flatMap FieldType.descriptor ++
        ')' :: resultDescriptor d.result).length := by
      have hlength := length_le_descriptors d.parameters
      rw [List.length_append]
      omega
    have hread := parametersOnto?_descriptors hparameters hfuel [] (resultDescriptor d.result)
    have hend := result?_eq_some_iff.mpr ⟨hresult, rfl⟩
    rw [descriptor_eq, ofChars?, hread]
    simp only [Option.bind_eq_bind, Option.bind_some, hend]
    rfl

theorem parse_eq_ok_iff {s : String} {d : MethodDescriptor} :
    parse s = .ok d ↔ d.WellFormed ∧ d.descriptor = s.toList := by
  rw [← ofChars?_eq_some_iff, parse]
  cases ofChars? s.toList with
  | none => exact ⟨nofun, nofun⟩
  | some e => exact ⟨fun h => by cases h; rfl, fun h => by cases h; rfl⟩

end MethodDescriptor

/-! ### The grammar -/

/-- Symbols that stand for characters, among them one for every ASCII character. -/
structure Alphabet (α : Type) where
  char : α → Char
  letter : Char → α
  char_injective : Function.Injective char
  char_letter : ∀ c : Char, c.toNat < 128 → char (letter c) = c

namespace Alphabet

open Computability

def characters : Alphabet Char where
  char := id
  letter := id
  char_injective := Function.injective_id
  char_letter _ _ := rfl

/-- Bytes, each of which stands for the character with its number. -/
def bytes : Alphabet UInt8 where
  char b := Char.ofNat b.toNat
  letter c := UInt8.ofNat c.toNat
  char_injective a b h := by
    have hvalid : ∀ x : UInt8, (Char.ofNat x.toNat).toNat = x.toNat := by
      intro x
      have hx : x.toNat < 256 := x.toNat_lt
      have hvalid : x.toNat.isValidChar := .inl (by omega)
      rw [Char.ofNat, dif_pos hvalid]
      exact UInt32.toNat_ofNatLT ..
    have hnat := congrArg Char.toNat h
    rw [hvalid, hvalid] at hnat
    exact UInt8.toNat_inj.mp hnat
  char_letter c hc := by
    have hnat : (UInt8.ofNat c.toNat).toNat = c.toNat :=
      UInt8.toNat_ofNat_of_lt' (Nat.lt_trans hc (by decide))
    rw [hnat, Char.ofNat_toNat]

variable {α : Type} (A : Alphabet α)

def one (c : Char) : Language α := {[A.letter c]}

def baseLetters : List Char := ['B', 'C', 'D', 'F', 'I', 'J', 'S', 'Z']

/-- One of `B C D F I J S Z`. -/
def baseTypes : Language α := {w | ∃ c ∈ baseLetters, w = [A.letter c]}

/-- One or more symbols other than `;`. -/
def classNames : Language α := {w | w ≠ [] ∧ A.letter ';' ∉ w}

/-- Any number of `[`, then a base type or `L`, a class name and `;`. -/
def fieldTypes : Language α :=
  (A.one '[')∗ * (A.baseTypes + A.one 'L' * A.classNames * A.one ';')

/-- Field types in parentheses, then a field type or `V`. -/
def methodTypes : Language α :=
  A.one '(' * A.fieldTypes∗ * A.one ')' * (A.fieldTypes + A.one 'V')

variable {A}

theorem map_char_eq_iff {w : List α} {s : List Char} (hs : ∀ c ∈ s, c.toNat < 128) :
    w.map A.char = s ↔ w = s.map A.letter := by
  have hback : (s.map A.letter).map A.char = s := by
    rw [List.map_map]
    exact (List.map_congr_left fun c hc => A.char_letter c (hs c hc)).trans (List.map_id s)
  constructor
  · intro h
    exact List.map_injective_iff.mpr A.char_injective (h.trans hback.symm)
  · rintro rfl
    exact hback

theorem mem_one {w : List α} {c : Char} (hc : c.toNat < 128) :
    w ∈ A.one c ↔ w.map A.char = [c] := by
  rw [map_char_eq_iff (by simpa using hc)]
  exact Iff.rfl

theorem mem_kstar_one {w : List α} {c : Char} (hc : c.toNat < 128) :
    w ∈ (A.one c)∗ ↔ ∃ n, w.map A.char = List.replicate n c := by
  rw [Language.mem_kstar]
  constructor
  · rintro ⟨parts, rfl, hparts⟩
    refine ⟨parts.length, ?_⟩
    have hone : parts = List.replicate parts.length [A.letter c] :=
      List.eq_replicate_iff.mpr ⟨rfl, hparts⟩
    rw [hone, List.flatten_replicate_singleton, List.map_replicate, A.char_letter c hc,
      List.length_replicate]
  · rintro ⟨n, hn⟩
    refine ⟨List.replicate n [A.letter c], ?_, fun y hy => List.eq_of_mem_replicate hy⟩
    rw [List.flatten_replicate_singleton, (map_char_eq_iff ?_).mp hn, List.map_replicate]
    intro x hx
    rwa [List.eq_of_mem_replicate hx]

theorem ascii_baseLetters : ∀ c ∈ baseLetters, c.toNat < 128 := by simp [baseLetters]

theorem exists_ofLetter? : ∀ c ∈ baseLetters, (ElementType.ofLetter? c).isSome := by
  simp [baseLetters, ElementType.ofLetter?]

theorem mem_baseTypes {w : List α} :
    w ∈ A.baseTypes ↔ ∃ c ∈ baseLetters, w.map A.char = [c] :=
  exists_congr fun c => and_congr_right fun hc => mem_one (ascii_baseLetters c hc)

theorem mem_classNames {w : List α} :
    w ∈ A.classNames ↔ w.map A.char ≠ [] ∧ ';' ∉ w.map A.char := by
  have hsemicolon : A.letter ';' ∈ w ↔ ';' ∈ w.map A.char := by
    rw [← List.mem_map_of_injective A.char_injective, A.char_letter ';' (by decide)]
  rw [← hsemicolon, ne_eq, List.map_eq_nil_iff]
  exact Iff.rfl

theorem mem_elements {w : List α} :
    w ∈ A.baseTypes + A.one 'L' * A.classNames * A.one ';' ↔
      ∃ e : ElementType, e.WellFormed ∧ e.descriptor = w.map A.char := by
  rw [Language.mem_add, mem_baseTypes]
  constructor
  · rintro (⟨c, hc, hw⟩ | ⟨_, ⟨mark, hmark, name, hname, rfl⟩, close, hclose, rfl⟩)
    · obtain ⟨e, he⟩ := Option.isSome_iff_exists.mp (exists_ofLetter? c hc)
      obtain ⟨hwell, hdescriptor⟩ := ElementType.ofLetter?_eq_some he
      exact ⟨e, hwell, hdescriptor.trans hw.symm⟩
    · obtain ⟨hne, hsemicolon⟩ := mem_classNames.mp hname
      refine ⟨.object (String.ofList (name.map A.char)), ⟨?_, ?_⟩, ?_⟩
      · rwa [String.toList_ofList]
      · rwa [String.toList_ofList]
      · simp only [ElementType.descriptor, String.toList_ofList, List.map_append,
          (mem_one (by decide)).mp hmark, (mem_one (by decide)).mp hclose, List.singleton_append]
  · rintro ⟨e, he, hdescriptor⟩
    cases e with
    | object name =>
      obtain ⟨front, close, rfl, hfront, hclose⟩ := List.map_eq_append_iff.mp hdescriptor.symm
      obtain ⟨mark, name', rfl, hmark, hname⟩ := List.map_eq_cons_iff.mp hfront
      refine .inr ⟨mark :: name', ⟨[mark], ?_, name', ?_, rfl⟩, close, ?_, rfl⟩
      · exact (mem_one (by decide)).mpr (congrArg (fun c => [c]) hmark)
      · exact mem_classNames.mpr (hname ▸ he)
      · exact (mem_one (by decide)).mpr hclose
    | _ => exact .inl ⟨_, by decide, hdescriptor.symm⟩

theorem mem_fieldTypes {w : List α} :
    w ∈ A.fieldTypes ↔ ∃ t : FieldType, t.WellFormed ∧ t.descriptor = w.map A.char := by
  constructor
  · rintro ⟨dimensions, hdimensions, element, helement, rfl⟩
    obtain ⟨n, hn⟩ := (mem_kstar_one (by decide)).mp hdimensions
    obtain ⟨e, he, hdescriptor⟩ := mem_elements.mp helement
    refine ⟨⟨e, n⟩, he, ?_⟩
    rw [List.map_append, hn, ← hdescriptor]
    rfl
  · rintro ⟨t, ht, hdescriptor⟩
    obtain ⟨dimensions, element, rfl, hdimensions, helement⟩ :=
      List.map_eq_append_iff.mp hdescriptor.symm
    exact ⟨dimensions, (mem_kstar_one (by decide)).mpr ⟨_, hdimensions⟩, element,
      mem_elements.mpr ⟨t.element, ht, helement.symm⟩, rfl⟩

theorem mem_kstar_fieldTypes {w : List α} :
    w ∈ A.fieldTypes∗ ↔ ∃ ts : List FieldType,
      (∀ t ∈ ts, t.WellFormed) ∧ ts.flatMap FieldType.descriptor = w.map A.char := by
  rw [Language.mem_kstar]
  constructor
  · rintro ⟨parts, rfl, hparts⟩
    induction parts with
    | nil => exact ⟨[], by simp, rfl⟩
    | cons part parts ih =>
      obtain ⟨hpart, hparts⟩ := List.forall_mem_cons.mp hparts
      obtain ⟨t, ht, hdescriptor⟩ := mem_fieldTypes.mp hpart
      obtain ⟨ts, hts, hdescriptors⟩ := ih hparts
      refine ⟨t :: ts, List.forall_mem_cons.mpr ⟨ht, hts⟩, ?_⟩
      rw [List.flatMap_cons, hdescriptor, hdescriptors, List.flatten_cons, List.map_append]
  · rintro ⟨ts, hts, hdescriptors⟩
    induction ts generalizing w with
    | nil => exact ⟨[], List.map_eq_nil_iff.mp hdescriptors.symm, by simp⟩
    | cons t ts ih =>
      obtain ⟨ht, hts⟩ := List.forall_mem_cons.mp hts
      obtain ⟨part, rest, rfl, hpart, hrest⟩ := List.map_eq_append_iff.mp hdescriptors.symm
      obtain ⟨parts, rfl, hparts⟩ := ih hts hrest.symm
      exact ⟨part :: parts, rfl,
        List.forall_mem_cons.mpr ⟨mem_fieldTypes.mpr ⟨t, ht, hpart.symm⟩, hparts⟩⟩

theorem mem_results {w : List α} :
    w ∈ A.fieldTypes + A.one 'V' ↔ ∃ result : Option FieldType,
      (∀ t ∈ result, t.WellFormed) ∧ MethodDescriptor.resultDescriptor result = w.map A.char := by
  rw [Language.mem_add, mem_fieldTypes, mem_one (by decide), Option.exists]
  simp [MethodDescriptor.resultDescriptor, eq_comm, or_comm]

theorem mem_methodTypes {w : List α} :
    w ∈ A.methodTypes ↔
      ∃ d : MethodDescriptor, d.WellFormed ∧ d.descriptor = w.map A.char := by
  constructor
  · rintro ⟨_, ⟨_, ⟨opening, hopening, types, htypes, rfl⟩, closing, hclosing, rfl⟩, after, hafter,
      rfl⟩
    obtain ⟨ts, hts, hdescriptors⟩ := mem_kstar_fieldTypes.mp htypes
    obtain ⟨result, hresult, hdescriptor⟩ := mem_results.mp hafter
    refine ⟨⟨ts, result⟩, ⟨hts, hresult⟩, ?_⟩
    simp only [MethodDescriptor.descriptor_eq, hdescriptors, hdescriptor, List.map_append,
      (mem_one (by decide)).mp hopening, (mem_one (by decide)).mp hclosing, List.append_assoc,
      List.singleton_append]
  · rintro ⟨d, ⟨hparameters, hresult⟩, hdescriptor⟩
    rw [MethodDescriptor.descriptor_eq] at hdescriptor
    obtain ⟨opening, inner, rfl, hopening, hinner⟩ := List.map_eq_cons_iff.mp hdescriptor.symm
    obtain ⟨types, tail, rfl, htypes, htail⟩ := List.map_eq_append_iff.mp hinner
    obtain ⟨closing, after, rfl, hclosing, hafter⟩ := List.map_eq_cons_iff.mp htail
    have hone : ∀ {x : α} {c : Char}, c.toNat < 128 → A.char x = c → [x] ∈ A.one c :=
      fun hc hx => (mem_one hc).mpr (congrArg (fun c => [c]) hx)
    refine ⟨[opening] ++ types ++ [closing],
      ⟨[opening] ++ types, ⟨[opening], hone (by decide) hopening, types, ?_, rfl⟩, [closing],
        hone (by decide) hclosing, rfl⟩, after, ?_, by simp⟩
    · exact mem_kstar_fieldTypes.mpr ⟨d.parameters, hparameters, htypes.symm⟩
    · exact mem_results.mpr ⟨d.result, hresult, hafter.symm⟩

/-- The words of the grammar are read, and what is read is written back as it was. Every other text
is a malformed descriptor. -/
theorem descriptors_by_grammar (A : Alphabet α) (w : List α) :
    let text := String.ofList (w.map A.char)
    (w ∈ A.fieldTypes →
      ∃ t, FieldType.parse text = .ok t ∧ t.descriptor = text.toList) ∧
    (w ∉ A.fieldTypes →
      ∃ f, FieldType.parse text = .error f ∧ f.kind = .format ∧
        f.cause? = some .malformedDescriptor) ∧
    (w ∈ A.methodTypes →
      ∃ d, MethodDescriptor.parse text = .ok d ∧ d.descriptor = text.toList) ∧
    (w ∉ A.methodTypes →
      ∃ f, MethodDescriptor.parse text = .error f ∧ f.kind = .format ∧
        f.cause? = some .malformedDescriptor) := by
  intro text
  have htext : text.toList = w.map A.char := String.toList_ofList
  rw [mem_fieldTypes, mem_methodTypes, FieldType.parse, MethodDescriptor.parse, htext]
  refine ⟨?_, ?_, ?_, ?_⟩
  · rintro ⟨t, ht⟩
    exact ⟨t, by rw [FieldType.ofChars?_eq_some_iff.mpr ht], ht.2⟩
  · intro hnone
    cases hread : FieldType.ofChars? (w.map A.char) with
    | none => exact ⟨_, rfl, rfl, rfl⟩
    | some t => exact absurd ⟨t, FieldType.ofChars?_eq_some_iff.mp hread⟩ hnone
  · rintro ⟨d, hd⟩
    exact ⟨d, by rw [MethodDescriptor.ofChars?_eq_some_iff.mpr hd], hd.2⟩
  · intro hnone
    cases hread : MethodDescriptor.ofChars? (w.map A.char) with
    | none => exact ⟨_, rfl, rfl, rfl⟩
    | some d => exact absurd ⟨d, MethodDescriptor.ofChars?_eq_some_iff.mp hread⟩ hnone

/-- A class name with brackets in it, a byte that no text in UTF-8 has, and an empty class name. -/
theorem descriptors_by_grammar_sample :
    (∃ d, MethodDescriptor.parse "([[L)(;J)V" = .ok d ∧ d.descriptor = "([[L)(;J)V".toList) ∧
    (∃ t, FieldType.parse (String.ofList ([0x4C, 0xFF, 0x3B].map bytes.char)) = .ok t ∧
      t.descriptor = [0x4C, 0xFF, 0x3B].map bytes.char) ∧
    (∃ f, FieldType.parse "L;" = .error f ∧ f.kind = .format ∧
      f.cause? = some .malformedDescriptor) := by
  have hcharacters : ∀ text : String,
      String.ofList (text.toList.map characters.char) = text := by
    intro text
    rw [show characters.char = id from rfl, List.map_id, String.ofList_toList]
  obtain ⟨-, -, hmethod, -⟩ := descriptors_by_grammar characters "([[L)(;J)V".toList
  obtain ⟨hfield, -⟩ := descriptors_by_grammar bytes [0x4C, 0xFF, 0x3B]
  obtain ⟨-, hmalformed, -⟩ := descriptors_by_grammar characters "L;".toList
  simp only [hcharacters, String.toList_ofList] at hmethod hfield hmalformed
  refine ⟨hmethod ?_, hfield ?_, hmalformed ?_⟩
  · refine mem_methodTypes.mpr ⟨⟨[⟨.object ")(", 2⟩, ⟨.long, 0⟩], none⟩, ⟨?_, nofun⟩, by decide⟩
    exact List.forall_mem_cons.mpr ⟨⟨by decide, by decide⟩, List.forall_mem_singleton.mpr trivial⟩
  · exact mem_fieldTypes.mpr ⟨⟨.object "\xff", 0⟩, ⟨by decide, by decide⟩, by decide⟩
  · intro hmem
    obtain ⟨t, ht⟩ := mem_fieldTypes.mp hmem
    have hread := FieldType.ofChars?_eq_some_iff.mpr ht
    cases hread

end Alphabet

end Jvm
