import Mathlib
import Jvm.Report.Format
import Jvm.Proofs.ClassFile.Resolved
import Jvm.Proofs.ClassFile.SymbolicLookups
import Jvm.Proofs.Report.Layout

/-!
# The records of the line report

Every record of the report ends its line and has a fixed number of columns. But names and descriptors
are printed as they stand in the class file, and a class file may have newlines and tabs in them: a
record has the lines and columns that it should have exactly when the texts that are printed without
quotes have none of their own.
-/

namespace Jvm

open Text ClassSummary

/-! ### Records -/

/-- What a record of the report is made of: its columns, and the texts of the class file that stand
in them without quotes. -/
structure LineRecord where
  columns : Nat
  plain : List String
  deriving Repr, DecidableEq

/-- A text that shows a record. It ends in a newline; all other newlines, and the tabs that are not
between two columns, are those of the plain texts. -/
structure LineRecord.Printed (r : LineRecord) (line : String) : Prop where
  ended : ∃ body, line = body ++ "\n"
  newlines : line.toList.count '\n' = 1 + occurrences '\n' r.plain
  tabs : line.toList.count '\t' + 1 = r.columns + occurrences '\t' r.plain

/-- The texts that a constant is shown with, without quotes. -/
def ConstantPool.plainTexts (p : ConstantPool) (index : UInt16) : Constant → List String
  | .classRef _ => p.strings (p.route ⟨index, .classRef⟩)
  | .fieldref .. => p.strings (p.route ⟨index, .fieldref⟩)
  | .methodref .. => p.strings (p.route ⟨index, .methodref⟩)
  | .interfaceMethodref .. => p.strings (p.route ⟨index, .interfaceMethodref⟩)
  | .nameAndType .. => p.strings (p.route ⟨index, .nameAndType⟩)
  | .methodType _ => p.strings (p.route ⟨index, .methodType⟩)
  | .dynamic _ nameAndType | .invokeDynamic _ nameAndType =>
    p.strings (p.route ⟨nameAndType, .nameAndType⟩)
  | .module name | .package name => p.strings (p.route ⟨name, .utf8⟩)
  | .utf8 .. | .integer _ | .float _ | .long _ | .double _ | .string _ | .methodHandle .. => []

def ConstantPool.lineRecord (p : ConstantPool) (entry : UInt16 × Constant) : LineRecord :=
  ⟨4, p.plainTexts entry.1 entry.2⟩

def Field.lineRecord (f : Field) : LineRecord := ⟨4, [f.name, f.descriptor]⟩

def Code.lineRecords (c : Code) : List LineRecord :=
  c.listing.instructions.map (fun _ => ⟨2, []⟩) ++ (c.listing.halt?.map fun _ => ⟨2, []⟩).toList

def Method.lineRecords (m : Method) : List LineRecord :=
  ⟨5, [m.name, m.descriptor]⟩ :: (m.code?.map Code.lineRecords).getD []

namespace ClassFile

def lineRecords (c : ClassFile) : List LineRecord :=
  ⟨4, [c.name]⟩ ::
    ((if c.superName = "" then [] else [⟨2, [c.superName]⟩]) ++
      c.interfaceNames.map (fun name => ⟨2, [name]⟩) ++
      c.pool.entries.map c.pool.lineRecord ++
      c.fields.map Field.lineRecord ++
      c.methods.flatMap Method.lineRecords)

def plainTexts (c : ClassFile) : List String := c.lineRecords.flatMap LineRecord.plain

def codes (c : ClassFile) : List Code := c.methods.filterMap Method.code?

def recordCount (c : ClassFile) : Nat :=
  1 + (if c.superName = "" then 0 else 1) + c.interfaceNames.length +
    (List.range c.pool.count).countP (fun i => c.pool.usable (UInt16.ofNat i)) +
    c.fields.length + c.methods.length +
    (c.codes.map fun code => code.listing.instructions.length).sum +
    c.codes.countP fun code => code.listing.halt?.isSome

end ClassFile

/-! ### Columns -/

theorem count_intercalate {α : Type} [DecidableEq α] (a : α) (sep x : List α)
    (xs : List (List α)) :
    (sep.intercalate (x :: xs)).count a =
      ((x :: xs).map (List.count a)).sum + xs.length * sep.count a := by
  induction xs generalizing x with
  | nil => simp [List.intercalate]
  | cons y ys ih =>
    rw [List.intercalate_cons_cons, List.count_append, List.count_append, ih]
    simp only [List.map_cons, List.sum_cons, List.length_cons]
    ring

section

variable {c : Char}

theorem ClassSummary.count_column (hc : IsLayout c) (items : List String) :
    (column items).toList.count c = occurrences c items := by
  unfold column
  cases items with
  | nil => rcases hc with rfl | rfl <;> decide
  | cons item items =>
    have hcomma : (",".toList).count c = 0 := by rcases hc with rfl | rfl <;> decide
    rw [if_neg (by simp), String.toList_intercalate, List.map_cons, count_intercalate, hcomma,
      mul_zero, add_zero, ← List.map_cons, List.map_map]
    rfl

/-- A record is printed as it should be when its columns have the layout characters of its plain
texts. -/
theorem LineRecord.printed_recordLine {r : LineRecord} {first : String} {rest : List String}
    (hcolumns : r.columns = rest.length + 1)
    (hplain : ∀ c, IsLayout c → occurrences c (first :: rest) = occurrences c r.plain) :
    r.Printed (recordLine (first :: rest)) := by
  have hcount (c : Char) : (recordLine (first :: rest)).toList.count c =
      occurrences c (first :: rest) + rest.length * "\t".toList.count c + "\n".toList.count c := by
    rw [recordLine, String.toList_append, List.count_append, String.toList_intercalate,
      List.map_cons, count_intercalate, List.length_map, ← List.map_cons, List.map_map]
    rfl
  refine ⟨⟨_, rfl⟩, ?_, ?_⟩
  · rw [hcount, hplain _ (.inl rfl), show "\t".toList.count '\n' = 0 by decide,
      show "\n".toList.count '\n' = 1 by decide]
    ring
  · rw [hcount, hplain _ (.inr rfl), hcolumns, show "\t".toList.count '\t' = 1 by decide,
      show "\n".toList.count '\t' = 0 by decide]
    ring

end

/-! ### Constants -/

namespace ConstantPool

variable {p : ConstantPool} {index : UInt16} {k : Constant} {value : String} {c : Char}

theorem mem_entries (h : (index, k) ∈ p.entries) : p.slot? index = some k := by
  obtain ⟨i, -, hi⟩ := List.mem_filterMap.mp h
  dsimp only at hi
  split at hi
  · obtain ⟨k', hk', hpair⟩ := Option.map_eq_some_iff.mp hi
    cases hpair
    exact hk'
  · cases hi

theorem length_entries (p : ConstantPool) :
    p.entries.length = (List.range p.count).countP fun i => p.usable (UInt16.ofNat i) := by
  rw [entries, List.length_filterMap_eq_countP]
  refine List.countP_congr fun i _ => ?_
  cases hslot : p.slot? (UInt16.ofNat i) <;> simp [usable, hslot]

theorem exists_utf8_of_mem_strings {route : List Hop} {t : String} (h : t ∈ p.strings route) :
    ∃ i, p.utf8 i = .ok t := by
  obtain ⟨hop, -, hhop⟩ := List.mem_filterMap.mp h
  obtain ⟨entry, hentry, ht⟩ := Option.bind_eq_some_iff.mp hhop
  have hfinds := found?_eq_some_iff.mp hentry
  cases entry with
  | utf8 value raw =>
    cases ht
    refine ⟨hop.index, ?_⟩
    rcases p.entry_cases hop with ⟨entry, -, hslot, heq⟩ | ⟨f, husable, -, -⟩
    · rw [utf8, entryAs, heq, Option.some.inj (hslot.symm.trans hfinds.2.1)]
      rfl
    · exact absurd hfinds.1 (by simp [husable])
  | _ => cases ht

theorem exists_utf8_of_mem_plainTexts {t : String} (h : t ∈ p.plainTexts index k) :
    ∃ i, p.utf8 i = .ok t := by
  cases k
  case utf8 | integer | float | long | double | string | methodHandle =>
    exact absurd h List.not_mem_nil
  all_goals exact exists_utf8_of_mem_strings h

theorem anyMethodref_strings {r : MemberRef} {isInterface : Bool} (hslot : p.slot? index = some k)
    (h : p.anyMethodref index = .ok (r, isInterface)) :
    memberStrings r = p.plainTexts index k := by
  have hany := p.anyMethodref_eq_ok index r
  cases isInterface with
  | false =>
    have hr := hany.1.mp h
    obtain ⟨k', -, hk', htag⟩ := ((p.methodref_follows index).succeeds_iff.mp ⟨r, hr⟩) _
      (by rw [route_eq]; exact List.mem_cons_self ..)
    cases hslot.symm.trans hk'
    cases k <;> cases htag
    exact (p.methodref_follows index).texts_eq r hr
  | true =>
    have hr := hany.2.mp h
    obtain ⟨k', -, hk', htag⟩ := ((p.interfaceMethodref_follows index).succeeds_iff.mp ⟨r, hr⟩) _
      (by rw [route_eq]; exact List.mem_cons_self ..)
    cases hslot.symm.trans hk'
    cases k <;> cases htag
    exact (p.interfaceMethodref_follows index).texts_eq r hr

theorem count_memberText (hc : IsLayout c) (r : MemberRef) :
    r.text.toList.count c = occurrences c (memberStrings r) := by
  have hpoint : ".".toList.count c = 0 := by rcases hc with rfl | rfl <;> decide
  simp only [MemberRef.text, memberStrings, occurrences_cons, occurrences_nil,
    String.toList_append, List.count_append, hpoint]
  omega

theorem count_pairText (hc : IsLayout c) {front : String} (hfront : Tidy front)
    (name descriptor : String) :
    (front ++ name ++ ":" ++ descriptor).toList.count c = occurrences c [name, descriptor] := by
  have hcolon : ":".toList.count c = 0 := by rcases hc with rfl | rfl <;> decide
  simp only [occurrences_cons, occurrences_nil, String.toList_append, List.count_append,
    hfront.count hc, hcolon, Nat.zero_add, Nat.add_zero]

/-- The text of a constant has the layout characters of its plain texts: what is quoted has none,
and neither has a number. -/
theorem count_valueText (hslot : p.slot? index = some k) (h : p.valueText index k = .ok value)
    (hc : IsLayout c) : value.toList.count c = occurrences c (p.plainTexts index k) := by
  have hone (s : String) : s.toList.count c = occurrences c [s] := by
    rw [occurrences_cons, occurrences_nil, Nat.add_zero]
  cases k with
  | utf8 value' raw =>
    cases h
    exact (tidy_quoted _).count hc
  | integer | long =>
    cases h
    exact (tidy_intRepr _).count hc
  | float | double =>
    cases h
    exact (Float.tidy_render _ _).count hc
  | classRef =>
    rw [plainTexts, ← (p.className_follows index).texts_eq _ h, hone]
  | methodType =>
    rw [plainTexts, ← (p.methodType_follows index).texts_eq _ h, hone]
  | module name | package name =>
    rw [plainTexts, ← (p.utf8_follows name).texts_eq _ h, hone]
  | string =>
    obtain ⟨s, -, hs⟩ := Fault.bind_eq_ok.mp h
    cases hs
    exact (tidy_quoted _).count hc
  | fieldref =>
    obtain ⟨r, hr, hvalue⟩ := Fault.bind_eq_ok.mp h
    cases hvalue
    rw [plainTexts, ← (p.fieldref_follows index).texts_eq _ hr, count_memberText hc]
  | methodref | interfaceMethodref =>
    obtain ⟨⟨r, isInterface⟩, hr, hvalue⟩ := Fault.bind_eq_ok.mp h
    cases hvalue
    rw [← anyMethodref_strings hslot hr, count_memberText hc]
  | nameAndType =>
    obtain ⟨⟨name, descriptor⟩, hpair, hvalue⟩ := Fault.bind_eq_ok.mp h
    cases hvalue
    rw [plainTexts, ← (p.nameAndType_follows index).texts_eq _ hpair, ← @String.empty_append name]
    exact count_pairText hc (by simp [tidy_iff]) name descriptor
  | dynamic bootstrap nameAndType | invokeDynamic bootstrap nameAndType =>
    obtain ⟨⟨name, descriptor⟩, hpair, hvalue⟩ := Fault.bind_eq_ok.mp h
    cases hvalue
    have hfront : Tidy ("bootstrap " ++ bootstrap.toNat.repr ++ " ") := by
      simp only [tidy_append]
      exact ⟨⟨by simp [tidy_iff], tidy_natRepr _⟩, by simp [tidy_iff]⟩
    rw [plainTexts, ← (p.nameAndType_follows nameAndType).texts_eq _ hpair]
    exact count_pairText hc hfront name descriptor
  | methodHandle kind reference =>
    cases h
    have hvalue : Tidy ("kind " ++ kind.toNat.repr ++ " #" ++ reference.toNat.repr) := by
      simp only [tidy_append]
      exact ⟨⟨⟨by simp [tidy_iff], tidy_natRepr _⟩, by simp [tidy_iff]⟩, tidy_natRepr _⟩
    exact hvalue.count hc

end ConstantPool

/-! ### Members -/

section

variable {α β : Type}

theorem inContext_eq_ok {label : String} {e : Except Fault α} {a : α}
    (h : inContext label e = .ok a) : e = .ok a := by
  cases e with
  | ok b => exact h
  | error f => cases h

theorem forall₂_of_mapM {f : α → Except Fault β} {as : List α} {bs : List β}
    (h : as.mapM f = .ok bs) : List.Forall₂ (fun a b => a ∈ as ∧ f a = .ok b) as bs := by
  induction as generalizing bs with
  | nil =>
    cases h
    exact .nil
  | cons a as ih =>
    rw [List.mapM_cons] at h
    obtain ⟨b, hb, h⟩ := Fault.bind_eq_ok.mp h
    obtain ⟨bs, hbs, h⟩ := Fault.bind_eq_ok.mp h
    cases h
    exact .cons ⟨List.mem_cons_self .., hb⟩
      ((ih hbs).imp fun _ _ hx => ⟨List.mem_cons_of_mem _ hx.1, hx.2⟩)

end

namespace ClassSummary

variable {p : ConstantPool} {c : Char}

theorem count_flags (hc : IsLayout c) (owner : Access.Owner) (flags : UInt16) :
    (column (Access.names owner flags)).toList.count c = 0 := by
  rw [count_column hc, Tidy.occurrences_eq_zero (Access.tidy_names owner flags) hc]

theorem printed_constant {entry : UInt16 × Constant} {k : ConstantSummary}
    (hentry : entry ∈ p.entries) (h : constant p entry.1 entry.2 = .ok k) :
    (p.lineRecord entry).Printed (constantLine k) := by
  obtain ⟨value, hvalue, hk⟩ := Fault.bind_eq_ok.mp h
  cases hk
  have hword : Tidy "const" := by simp [tidy_iff]
  have hindex : Tidy ("#" ++ entry.1.toNat.repr) :=
    tidy_append.mpr ⟨by simp [tidy_iff], tidy_natRepr _⟩
  refine LineRecord.printed_recordLine rfl fun c hc => ?_
  show occurrences c ["const", "#" ++ entry.1.toNat.repr, entry.2.tag.name, value] =
    occurrences c (p.plainTexts entry.1 entry.2)
  simp only [occurrences_cons, occurrences_nil, hword.count hc, hindex.count hc,
    (entry.2.tag.tidy_name).count hc,
    ConstantPool.count_valueText (ConstantPool.mem_entries hentry) (inContext_eq_ok hvalue) hc,
    Nat.zero_add, Nat.add_zero]

theorem printed_field {f : Field} {k : FieldSummary} (h : field p f = .ok k) :
    f.lineRecord.Printed (fieldLine k) := by
  obtain ⟨t, ht, h⟩ := Fault.bind_eq_ok.mp (inContext_eq_ok h)
  obtain ⟨v, -, h⟩ := Fault.bind_eq_ok.mp h
  cases h
  have hword : Tidy "field" := by simp [tidy_iff]
  refine LineRecord.printed_recordLine rfl fun c hc => ?_
  simp only [Field.lineRecord, occurrences_cons, occurrences_nil, hword.count hc, count_flags hc,
    FieldType.count_text hc, (FieldType.parse_eq_ok_iff.mp ht).2, Nat.zero_add]

theorem printed_indented {text : String} (h : Tidy text) :
    LineRecord.Printed ⟨2, []⟩ (recordLine ["", text]) := by
  have hempty : Tidy "" := by simp [tidy_iff]
  refine LineRecord.printed_recordLine rfl fun c hc => ?_
  simp only [occurrences_cons, occurrences_nil, hempty.count hc, h.count hc]

theorem printed_code (k : Code) :
    List.Forall₂ LineRecord.Printed k.lineRecords (codeLines (code k)) := by
  refine List.rel_append ?_ ?_
  · rw [code, List.map_map, List.forall₂_map_left_iff, List.forall₂_map_right_iff,
      List.forall₂_same]
    exact fun i _ => printed_indented i.tidy_text
  · rw [code]
    cases k.listing.halt? with
    | none => exact .nil
    | some address =>
      have hhalt : Tidy (address.repr ++ ": <unsupported>") :=
        tidy_append.mpr ⟨tidy_natRepr _, by simp [tidy_iff]⟩
      exact .cons (printed_indented hhalt) .nil

theorem printed_method {m : Method} {k : MethodSummary} (h : method m = .ok k) :
    List.Forall₂ LineRecord.Printed m.lineRecords (methodLines k) := by
  obtain ⟨d, hd, h⟩ := Fault.bind_eq_ok.mp (inContext_eq_ok h)
  cases h
  have hword : Tidy "method" := by simp [tidy_iff]
  refine .cons (LineRecord.printed_recordLine rfl fun c hc => ?_) ?_
  · have htexts := MethodDescriptor.count_texts hc d
    rw [(MethodDescriptor.parse_eq_ok_iff.mp hd).2] at htexts
    have hresult : (d.result.map FieldType.text).getD "void" =
        MethodDescriptor.resultText d.result := by cases d.result <;> rfl
    rw [occurrences_cons] at htexts
    simp only [occurrences_cons, occurrences_nil, hword.count hc, count_flags hc, count_column hc,
      hresult]
    omega
  · cases m.code? with
    | none => exact .nil
    | some k => exact printed_code k

theorem printed_class {c : ClassFile} {k : ClassSummary} (h : ofClassFile c = .ok k) :
    List.Forall₂ LineRecord.Printed c.lineRecords k.lines := by
  obtain ⟨constants, hconstants, h⟩ := Fault.bind_eq_ok.mp h
  obtain ⟨fields, hfields, h⟩ := Fault.bind_eq_ok.mp h
  obtain ⟨methods, hmethods, h⟩ := Fault.bind_eq_ok.mp h
  cases h
  have hversion : Tidy (c.major.toNat.repr ++ "." ++ c.minor.toNat.repr) := by
    simp only [tidy_append]
    exact ⟨⟨tidy_natRepr _, by simp [tidy_iff]⟩, tidy_natRepr _⟩
  have hsuper : Tidy "super" := by simp [tidy_iff]
  have himplements : Tidy "implements" := by simp [tidy_iff]
  refine .cons (LineRecord.printed_recordLine rfl fun x hx => ?_)
    (List.rel_append (List.rel_append (List.rel_append (List.rel_append ?_ ?_) ?_) ?_) ?_)
  · show occurrences x [kindOf c.flags, c.name, column (Access.names .wholeClass c.flags),
      c.major.toNat.repr ++ "." ++ c.minor.toNat.repr] = occurrences x [c.name]
    simp only [occurrences_cons, occurrences_nil, (tidy_kindOf c.flags).count hx, count_flags hx,
      hversion.count hx, Nat.zero_add, Nat.add_zero]
  · dsimp only
    split
    · exact .nil
    · refine .cons (LineRecord.printed_recordLine rfl fun x hx => ?_) .nil
      simp only [occurrences_cons, occurrences_nil, hsuper.count hx, Nat.zero_add]
  · rw [List.forall₂_map_left_iff, List.forall₂_map_right_iff, List.forall₂_same]
    intro name _
    refine LineRecord.printed_recordLine rfl fun x hx => ?_
    simp only [occurrences_cons, occurrences_nil, himplements.count hx, Nat.zero_add]
  · rw [List.forall₂_map_left_iff, List.forall₂_map_right_iff]
    exact (forall₂_of_mapM hconstants).imp fun _ _ hk => printed_constant hk.1 hk.2
  · rw [List.forall₂_map_left_iff, List.forall₂_map_right_iff]
    exact (forall₂_of_mapM hfields).imp fun _ _ hk => printed_field hk.2
  · exact List.rel_flatMap (forall₂_of_mapM hmethods) fun _ _ hk => printed_method hk.2

end ClassSummary

/-! ### The report -/

/-- The layout characters of the lines are those of the records and those of their plain texts. -/
theorem LineRecord.occurrences_lines {rs : List LineRecord} {lines : List String}
    (h : List.Forall₂ Printed rs lines) :
    occurrences '\n' lines = rs.length + occurrences '\n' (rs.flatMap plain) := by
  induction h with
  | nil => rfl
  | cons hr _ ih =>
    rw [occurrences_cons, hr.newlines, ih, List.flatMap_cons, occurrences_append, List.length_cons]
    omega

namespace ClassFile

theorem length_methodRecords (ms : List Method) :
    (ms.flatMap Method.lineRecords).length = ms.length +
      ((ms.filterMap Method.code?).map fun code => code.listing.instructions.length).sum +
      (ms.filterMap Method.code?).countP fun code => code.listing.halt?.isSome := by
  induction ms with
  | nil => rfl
  | cons m ms ih =>
    rw [List.flatMap_cons, List.length_append, ih]
    cases hcode : m.code? with
    | none =>
      rw [List.filterMap_cons_none hcode, Method.lineRecords, hcode]
      simp only [Option.map_none, Option.getD_none, List.length_cons, List.length_nil]
      omega
    | some code =>
      rw [List.filterMap_cons_some hcode, Method.lineRecords, hcode, List.map_cons, List.sum_cons,
        List.countP_cons]
      cases hhalt : code.listing.halt? <;>
        simp [Code.lineRecords, hhalt] <;> omega

theorem length_lineRecords (c : ClassFile) : c.lineRecords.length = c.recordCount := by
  have hsuper : (if c.superName = "" then [] else [(⟨2, [c.superName]⟩ : LineRecord)]).length =
      if c.superName = "" then 0 else 1 := by
    split <;> rfl
  rw [lineRecords, recordCount, codes, ← c.pool.length_entries]
  simp only [List.length_cons, List.length_append, List.length_map, hsuper, length_methodRecords]
  omega

theorem exists_utf8_of_className {p : ConstantPool} {i : UInt16} {t : String}
    (h : p.className i = .ok t) : ∃ j, p.utf8 j = .ok t := by
  obtain ⟨j, -, hj⟩ := Fault.bind_eq_ok.mp h
  exact ⟨j, hj⟩

theorem plain_of_mem_listing {code? : Option Code} {r : LineRecord}
    (h : r ∈ (code?.map Code.lineRecords).getD []) : r.plain = [] := by
  cases code? with
  | none => cases h
  | some code =>
    rcases List.mem_append.mp h with hr | hr
    · obtain ⟨-, -, rfl⟩ := List.mem_map.mp hr
      rfl
    · obtain ⟨-, -, rfl⟩ := Option.map_eq_some_iff.mp (Option.mem_toList.mp hr)
      rfl

/-- The texts that are printed without quotes are strings of the constant pool. -/
theorem Resolved.exists_utf8 {data : Bytes} {c : ClassFile} (h : c.Resolved data) {t : String}
    (ht : t ∈ c.plainTexts) : ∃ i, c.pool.utf8 i = .ok t := by
  obtain ⟨r, hr, ht⟩ := List.mem_flatMap.mp ht
  simp only [lineRecords, List.mem_cons, List.mem_append, List.mem_map, List.mem_flatMap] at hr
  rcases hr with rfl | (((hsuper | ⟨name, hname, rfl⟩) | ⟨⟨i, k⟩, -, rfl⟩) | ⟨f, hf, rfl⟩) |
    ⟨m, hm, hr⟩
  · cases List.mem_singleton.mp ht
    exact exists_utf8_of_className h.name
  · by_cases hempty : c.superName = ""
    · simp [hempty] at hsuper
    · rw [if_neg hempty] at hsuper
      cases List.mem_singleton.mp hsuper
      cases List.mem_singleton.mp ht
      exact exists_utf8_of_className (h.superName fun hzero => hempty (h.noSuperName hzero))
  · cases List.mem_singleton.mp ht
    have hmem : Except.ok t ∈ c.interfaces.map c.pool.className :=
      h.interfaceNames ▸ List.mem_map_of_mem hname
    obtain ⟨i, -, hi⟩ := List.mem_map.mp hmem
    exact exists_utf8_of_className hi
  · exact ConstantPool.exists_utf8_of_mem_plainTexts ht
  · rcases List.mem_pair.mp ht with rfl | rfl
    · exact ⟨_, (h.fields f hf).name⟩
    · exact ⟨_, (h.fields f hf).descriptor⟩
  · rcases List.mem_cons.mp hr with rfl | hr
    · rcases List.mem_pair.mp ht with rfl | rfl
      · exact ⟨_, (h.methods m hm).name⟩
      · exact ⟨_, (h.methods m hm).descriptor⟩
    · rw [plain_of_mem_listing hr] at ht
      cases ht

/-- The line report of a class file that has been read is a line for each of its records, in order.
Such a line ends in a newline, and has the columns of its record, but for the newlines and tabs of
the names and descriptors that are printed without quotes. So the report has one line for each record
exactly when none of these texts has a newline, and a line has the columns of its record exactly when
none of the texts in it has a tab. They all are strings of the constant pool. -/
theorem line_report_records {data : Bytes} {c : ClassFile} {report : Report}
    (hparse : parse data = .ok c) (hreport : c.report .line = .ok report) :
    ∃ lines, report = .text (String.join lines) ∧
      List.Forall₂ LineRecord.Printed c.lineRecords lines ∧
      c.lineRecords.length = c.recordCount ∧
      (String.join lines).toList.count '\n' = c.recordCount + occurrences '\n' c.plainTexts ∧
      ((String.join lines).toList.count '\n' = c.recordCount ↔
        ∀ t ∈ c.plainTexts, '\n' ∉ t.toList) ∧
      (∀ r line, (r, line) ∈ c.lineRecords.zip lines →
        (line.toList.count '\t' + 1 = r.columns ↔ ∀ t ∈ r.plain, '\t' ∉ t.toList)) ∧
      ∀ t ∈ c.plainTexts, ∃ i, c.pool.utf8 i = .ok t := by
  obtain ⟨k, hk, hreport⟩ := Fault.bind_eq_ok.mp hreport
  cases hreport
  have hprinted := printed_class hk
  have hcount : (String.join k.lines).toList.count '\n' =
      c.recordCount + occurrences '\n' c.plainTexts := by
    rw [String.toList_join, List.count_flatMap, ← c.length_lineRecords]
    exact LineRecord.occurrences_lines hprinted
  refine ⟨k.lines, rfl, hprinted, c.length_lineRecords, hcount, ?_, fun r line hmem => ?_,
    fun t ht => (parse_resolved data c hparse).exists_utf8 ht⟩
  · rw [hcount, Nat.add_eq_left, occurrences_eq_zero_iff]
  · have htabs := ((List.forall₂_iff_zip.mp hprinted).2 hmem).tabs
    rw [htabs, Nat.add_eq_left, occurrences_eq_zero_iff]

/-- A string constant with a newline in it, in a class that has a tidy name: the newline is escaped,
and each constant has one line. -/
theorem line_report_string : ∃ c report,
    parse [0xCA, 0xFE, 0xBA, 0xBE, 0, 0, 0, 52, 0, 5, 1, 0, 1, 65, 7, 0, 1, 1, 0, 3, 120, 10, 121,
      8, 0, 3, 0, 33, 0, 2, 0, 0, 0, 0, 0, 0, 0, 0, 0, 0] = .ok c ∧
    c.report .line = .ok (.text report) ∧ c.plainTexts = ["A", "A"] ∧ c.recordCount = 5 ∧
    report.toList.count '\n' = 5 := by
  obtain ⟨c, hparse, report, hreport, hplain, hrecords⟩ : ∃ c,
      parse [0xCA, 0xFE, 0xBA, 0xBE, 0, 0, 0, 52, 0, 5, 1, 0, 1, 65, 7, 0, 1, 1, 0, 3, 120, 10, 121,
        8, 0, 3, 0, 33, 0, 2, 0, 0, 0, 0, 0, 0, 0, 0, 0, 0] = .ok c ∧
      ∃ report, c.report .line = .ok (.text report) ∧ c.plainTexts = ["A", "A"] ∧
        c.recordCount = 5 := ⟨_, rfl, _, rfl, rfl, rfl⟩
  obtain ⟨lines, hlines, -, -, -, hlaw, -⟩ := line_report_records hparse hreport
  cases hlines
  refine ⟨c, _, hparse, hreport, hplain, hrecords, (hlaw.mpr ?_).trans hrecords⟩
  rw [hplain]
  decide

/-- A class file whose name has a newline and whose field has a tab in its name. -/
def untidyNames : Bytes :=
  [0xCA, 0xFE, 0xBA, 0xBE, 0, 0, 0, 52, 0, 5,
    1, 0, 3, 65, 10, 66, 7, 0, 1, 1, 0, 3, 120, 9, 121, 1, 0, 1, 73,
    0, 33, 0, 2, 0, 0, 0, 0, 0, 1, 0, 0, 0, 3, 0, 4, 0, 0, 0, 0, 0, 0]

/-- The report has two lines more than there are records, and the record of the field, the last one,
a column too many. -/
theorem line_report_untidy : ∃ c front,
    parse untidyNames = .ok c ∧ c.recordCount = 6 ∧
      c.report .line = .ok (.text (front ++ "field\tx\ty\tint\t-\n")) ∧
      (front ++ "field\tx\ty\tint\t-\n").toList.count '\n' = 8 ∧
      "field\tx\ty\tint\t-\n".toList.count '\t' + 1 = 5 :=
  ⟨_, "class\tA\nB\tpublic,super\t52.0\nconst\t#1\tUtf8\t\"A\\nB\"\nconst\t#2\tClass\tA\nB\n" ++
    "const\t#3\tUtf8\t\"x\\ty\"\nconst\t#4\tUtf8\t\"I\"\n", rfl, rfl, rfl, by decide +kernel,
    by decide +kernel⟩

end ClassFile

end Jvm
