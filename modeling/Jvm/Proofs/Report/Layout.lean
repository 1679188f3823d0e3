import Mathlib
import Jvm.Report.Lines
import Jvm.Proofs.Descriptors
import Jvm.Proofs.Instruction.Printing

/-!
# Layout characters

The line report is laid out with newlines and tabs. What the reports add of their own has neither:
numbers, flags, mnemonics, and the quotes around a text, which escape what is inside. A type in words
has as many of them as its descriptor.
-/

namespace Jvm

namespace Text

/-- The characters that end a line or a column. -/
def IsLayout (c : Char) : Prop := c = '\n' ∨ c = '\t'

instance : DecidablePred IsLayout := fun _ => inferInstanceAs (Decidable (_ ∨ _))

/-- A text that stays on its line and in its column. -/
def Tidy (s : String) : Prop := ∀ c ∈ s.toList, ¬ IsLayout c

variable {c : Char} {s t : String}

theorem tidy_iff : Tidy s ↔ '\n' ∉ s.toList ∧ '\t' ∉ s.toList := by
  simp only [Tidy, IsLayout, not_or, forall_and, List.forall_mem_ne']

theorem tidy_append : Tidy (s ++ t) ↔ Tidy s ∧ Tidy t := by
  simp only [Tidy, String.toList_append, List.forall_mem_append]

theorem tidy_ofList {cs : List Char} : Tidy (String.ofList cs) ↔ ∀ c ∈ cs, ¬ IsLayout c := by
  simp only [Tidy, String.toList_ofList]

theorem tidy_singleton : Tidy (String.singleton c) ↔ ¬ IsLayout c := by
  simp [Tidy]

theorem tidy_join {ts : List String} (h : ∀ t ∈ ts, Tidy t) : Tidy (String.join ts) := by
  intro c hc
  rw [String.toList_join] at hc
  obtain ⟨t, ht, hct⟩ := List.mem_flatMap.mp hc
  exact h t ht c hct

theorem Tidy.count (h : Tidy s) (hc : IsLayout c) : s.toList.count c = 0 :=
  List.count_eq_zero.mpr fun hmem => h c hmem hc

def occurrences (c : Char) (texts : List String) : Nat := (texts.map (·.toList.count c)).sum

theorem Tidy.occurrences_eq_zero {texts : List String} (h : ∀ t ∈ texts, Tidy t) (hc : IsLayout c) :
    occurrences c texts = 0 := by
  refine List.sum_eq_zero fun n hn => ?_
  obtain ⟨t, ht, rfl⟩ := List.mem_map.mp hn
  exact (h t ht).count hc

theorem occurrences_eq_zero_iff {texts : List String} :
    occurrences c texts = 0 ↔ ∀ t ∈ texts, c ∉ t.toList := by
  simp only [occurrences, List.sum_eq_zero_iff, List.forall_mem_map, List.count_eq_zero]

theorem occurrences_nil : occurrences c [] = 0 := rfl

theorem occurrences_cons (t : String) (ts : List String) :
    occurrences c (t :: ts) = t.toList.count c + occurrences c ts := List.sum_cons

theorem occurrences_append (texts texts' : List String) :
    occurrences c (texts ++ texts') = occurrences c texts + occurrences c texts' := by
  simp [occurrences]

/-! ### Numbers -/

theorem not_isLayout_digitChar (n : Nat) : ¬ IsLayout (Nat.digitChar n) := by
  rintro (h | h) <;> exact Nat.digitChar_ne _ rfl h

theorem not_isLayout_toDigits {base : Nat} (hbase : 1 < base) (n : Nat) :
    ∀ c ∈ Nat.toDigits base n, ¬ IsLayout c := by
  induction n using Nat.strongRecOn with
  | ind n ih =>
    rcases Nat.lt_or_ge n base with hn | hn
    · rw [Nat.toDigits_of_lt_base hn]
      simpa using not_isLayout_digitChar n
    · rw [Nat.toDigits_of_base_le hbase hn, List.forall_mem_append]
      exact ⟨ih _ (Nat.div_lt_self (by omega) hbase), by simpa using not_isLayout_digitChar _⟩

theorem tidy_natRepr (n : Nat) : Tidy n.repr := by
  intro c hc
  rw [Nat.toList_repr] at hc
  exact not_isLayout_toDigits (by decide) n c hc

theorem tidy_intRepr (n : Int) : Tidy n.repr := by
  cases n with
  | ofNat m => exact tidy_natRepr m
  | negSucc m => exact tidy_append.mpr ⟨by simp [tidy_iff], tidy_natRepr _⟩

theorem tidy_hex (width n : Nat) : Tidy (Hex.lower width n) := by
  refine tidy_ofList.mpr (List.forall_mem_append.mpr ⟨?_, not_isLayout_toDigits (by decide) n⟩)
  intro c hc
  rw [List.eq_of_mem_replicate hc]
  decide

/-! ### Quoted text -/

theorem tidy_quoteChar (c : Char) : Tidy (quoteChar '"' c) := by
  unfold quoteChar
  split_ifs with hescaped hprintable
  · refine tidy_append.mpr ⟨by simp [tidy_iff], tidy_singleton.mpr ?_⟩
    have hc : c = '"' ∨ c = '\\' := by simpa using hescaped
    rcases hc with rfl | rfl <;> decide
  · refine tidy_singleton.mpr ?_
    rintro (rfl | rfl) <;> exact absurd hprintable (by decide)
  · split
    case h_8 =>
      split_ifs <;> exact tidy_append.mpr ⟨by simp [tidy_iff], tidy_hex _ _⟩
    all_goals simp [tidy_iff]

/-- Quoted text has no newline and no tab, whatever is quoted. -/
theorem tidy_quoted (s : String) : Tidy (quoted s) := by
  have hquote : Tidy "\"" := by simp [tidy_iff]
  refine tidy_append.mpr ⟨tidy_append.mpr ⟨hquote, tidy_join fun t ht => ?_⟩, hquote⟩
  obtain ⟨c, -, rfl⟩ := List.mem_map.mp ht
  exact tidy_quoteChar c

end Text

open Text

/-! ### Floating-point numbers -/

namespace Float

theorem tidy_digitText (digits : List Nat) : Tidy (digitText digits) := by
  refine tidy_ofList.mpr fun c hc => ?_
  obtain ⟨n, -, rfl⟩ := List.mem_map.mp hc
  exact not_isLayout_digitChar n

theorem tidy_scientific (s : Style) (d : Decimal) : Tidy (s.scientific d) := by
  have hzeros (n : Nat) : Tidy (String.ofList (List.replicate n '0')) := by
    refine tidy_ofList.mpr fun c hc => ?_
    rw [List.eq_of_mem_replicate hc]
    decide
  unfold Style.scientific
  simp only [tidy_append]
  refine ⟨⟨⟨⟨?_, by simp [tidy_iff]⟩, by split <;> simp [tidy_iff]⟩, hzeros _⟩, tidy_natRepr _⟩
  split
  · simp [tidy_iff]
  · exact tidy_digitText _
  · simp only [tidy_append]
    exact ⟨⟨tidy_digitText _, by simp [tidy_iff]⟩, tidy_digitText _⟩

theorem tidy_positional (d : Decimal) : Tidy (positional d) := by
  unfold positional
  split
  · exact tidy_append.mpr ⟨by simp [tidy_iff], tidy_digitText _⟩
  · refine tidy_append.mpr ⟨tidy_digitText _, ?_⟩
    split
    · simp [tidy_iff]
    · exact tidy_append.mpr ⟨by simp [tidy_iff], tidy_digitText _⟩

theorem tidy_render (f : Format) (bits : Nat) : Tidy (Style.general.render f bits) := by
  unfold Style.render
  split
  · simp [tidy_iff, Style.general]
  · split <;> simp [tidy_iff, Style.general]
  · dsimp only
    split
    · exact tidy_append.mpr ⟨by split <;> simp [tidy_iff], by simp [tidy_iff]⟩
    · refine tidy_append.mpr ⟨by split <;> simp [tidy_iff], ?_⟩
      split
      · exact tidy_scientific _ _
      · exact tidy_positional _

end Float

/-! ### Fixed words -/

theorem Access.tidy_names (owner : Owner) (flags : UInt16) :
    ∀ name ∈ names owner flags, Tidy name := by
  intro name hname
  obtain ⟨entry, hentry, rfl⟩ := List.mem_map.mp hname
  have htable : ∀ entry ∈ owner.table, Tidy entry.2 := by
    cases owner <;> simp only [Owner.table, List.forall_mem_cons] <;> simp [tidy_iff]
  exact htable entry (List.mem_of_mem_filter hentry)

theorem ClassSummary.tidy_kindOf (flags : UInt16) : Tidy (kindOf flags) := by
  unfold kindOf
  split_ifs <;> simp [tidy_iff]

theorem ConstantTag.tidy_name (t : ConstantTag) : Tidy t.name := by
  cases t <;> simp [name, tidy_iff]

/-! ### Instructions -/

theorem Opcode.tidy_name (op : Opcode) : Tidy op.name := by
  rintro c hc (rfl | rfl)
  · exact op.blank_not_mem_name '\n' (by decide) hc
  · exact op.blank_not_mem_name '\t' (by decide) hc

theorem Instruction.tidy_text (i : Instruction) : Tidy i.text := by
  have hhead : Tidy (toString i.address ++ ": " ++ i.opcode.name) :=
    tidy_append.mpr ⟨tidy_append.mpr ⟨tidy_natRepr _, by simp [tidy_iff]⟩, i.opcode.tidy_name⟩
  unfold text
  split <;> simp only [tidy_append] at hhead ⊢
  · exact hhead
  · exact ⟨⟨hhead, by simp [tidy_iff]⟩, tidy_natRepr _⟩
  · exact ⟨⟨hhead, by simp [tidy_iff]⟩, tidy_intRepr _⟩
  · exact ⟨⟨hhead, by simp [tidy_iff]⟩, tidy_natRepr _⟩
  · exact ⟨⟨⟨⟨hhead, by simp [tidy_iff]⟩, tidy_natRepr _⟩, by simp [tidy_iff]⟩, tidy_intRepr _⟩
  · exact ⟨⟨hhead, by simp [tidy_iff]⟩, tidy_intRepr _⟩
  · exact ⟨⟨⟨⟨hhead, by simp [tidy_iff]⟩, tidy_natRepr _⟩, by simp [tidy_iff]⟩, tidy_natRepr _⟩

/-! ### Types in words -/

section

variable {c : Char} (hc : IsLayout c)

include hc

theorem count_sourceName (name : String) :
    (sourceName name).toList.count c = name.toList.count c := by
  have hslash : c ≠ '/' := by
    rintro rfl
    exact absurd hc (by decide)
  have hpoint : c ≠ '.' := by
    rintro rfl
    exact absurd hc (by decide)
  rw [sourceName, String.toList_ofList]
  induction name.toList with
  | nil => rfl
  | cons d rest ih =>
    rw [List.map_cons, List.count_cons, List.count_cons, ih]
    by_cases hd : d = '/'
    · simp [hd, hslash.symm, hpoint.symm]
    · rw [if_neg hd]

theorem ElementType.count_text (e : ElementType) :
    e.text.toList.count c = e.descriptor.count c := by
  cases e with
  | object name =>
    have hopen : c ≠ 'L' := by
      rintro rfl
      exact absurd hc (by decide)
    have hclose : c ≠ ';' := by
      rintro rfl
      exact absurd hc (by decide)
    show (sourceName name).toList.count c = ('L' :: name.toList ++ [';']).count c
    rw [count_sourceName hc]
    simp [hopen.symm, hclose.symm]
  | _ => rcases hc with rfl | rfl <;> decide

theorem FieldType.count_text (t : FieldType) : t.text.toList.count c = t.descriptor.count c := by
  have hbrackets : Tidy (String.join (List.replicate t.depth "[]")) := by
    refine tidy_join fun s hs => ?_
    rw [List.eq_of_mem_replicate hs]
    simp [tidy_iff]
  have hbracket : c ≠ '[' := by
    rintro rfl
    exact absurd hc (by decide)
  rw [text, descriptor, String.toList_append, List.count_append, List.count_append,
    hbrackets.count hc, t.element.count_text hc, List.count_replicate]
  simp [hbracket.symm]

theorem MethodDescriptor.count_texts (d : MethodDescriptor) :
    occurrences c (resultText d.result :: d.parameters.map FieldType.text) =
      d.descriptor.count c := by
  have hresult : (resultText d.result).toList.count c = (resultDescriptor d.result).count c := by
    cases d.result with
    | none => rcases hc with rfl | rfl <;> decide
    | some t => exact t.count_text hc
  have hparameters : (d.parameters.map FieldType.text).map (·.toList.count c) =
      d.parameters.map (List.count c ∘ FieldType.descriptor) := by
    rw [List.map_map]
    exact List.map_congr_left fun t _ => t.count_text hc
  have hopen : c ≠ '(' := by
    rintro rfl
    exact absurd hc (by decide)
  have hclose : c ≠ ')' := by
    rintro rfl
    exact absurd hc (by decide)
  rw [occurrences_cons, occurrences, hparameters, hresult, descriptor_eq,
    List.count_cons_of_ne hopen.symm, List.count_append, List.count_cons_of_ne hclose.symm,
    List.count_flatMap, Nat.add_comm]

end

end Jvm
