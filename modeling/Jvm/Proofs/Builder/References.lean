import Jvm.Proofs.Builder.Pool

/-!
# What a returned index leads to

An index leads to the constant that was the first to be asked for under its key. For constants whose
key gives them away that is the constant itself. The key of a name with a descriptor and those of
member references run their parts together, and the first constant under such a key can be a
different one (`nameAndType_collision`), so a reference is exact as long as its key, and that of the
name and descriptor in it, has been used for nothing else.
-/

namespace Jvm

namespace Builder

namespace Wanted

/-- An index from which the accessor for the kind of constant gives what the constant stands for. -/
def ResolvesAt (p : ConstantPool) (i : UInt16) : Wanted → Prop
  | .utf8 s => p.utf8 i = .ok s
  | .class_ name => p.className i = .ok name
  | .string s => p.string i = .ok s
  | .integer v => p.integer i = .ok v
  | .float bits => p.float i = .ok bits
  | .long v => p.long i = .ok v
  | .double bits => p.double i = .ok bits
  | .nameAndType name descriptor => p.nameAndType i = .ok (name, descriptor)
  | .fieldref r => p.fieldref i = .ok r
  | .methodref r => p.methodref i = .ok r
  | .interfaceMethodref r => p.interfaceMethodref i = .ok r

/-- The first constant that was asked for under the key of `w`. -/
def first (asked : List Wanted) (w : Wanted) : Wanted :=
  (asked.find? fun v => v.key = w.key).getD w

/-- A member reference as its entry tells it: the class is the one that was asked for, the name and
descriptor are the first under their key. -/
def member (asked : List Wanted) (r : MemberRef) : MemberRef :=
  match first asked (.nameAndType r.name r.descriptor) with
  | .nameAndType name descriptor => { r with name, descriptor }
  | _ => r

/-- The constant that the index for `w` leads to. -/
def meaning (asked : List Wanted) (w : Wanted) : Wanted :=
  match first asked w with
  | .fieldref r => .fieldref (member asked r)
  | .methodref r => .methodref (member asked r)
  | .interfaceMethodref r => .interfaceMethodref (member asked r)
  | v => v

end Wanted

/-! ### Indices lead to what was asked for first -/

section

variable {b : Builder} {asked more : List Wanted} {w v : Wanted}

theorem Wanted.first_eq {u : Wanted} (h : asked.find? (fun v => v.key = w.key) = some u) :
    first asked w = u := by
  rw [first, h, Option.getD_some]

namespace Recorded

theorem holds_first (h : Recorded asked b) (hw : b.Knows w) :
    b.Holds (w.first asked) (b.indexOf w) := by
  obtain ⟨u, hu, hholds⟩ := h.first w hw
  rwa [Wanted.first_eq hu]

theorem tag_first (h : Recorded asked b) (hw : b.Knows w) : (w.first asked).tag = w.tag := by
  obtain ⟨u, hu, -⟩ := h.first w hw
  have hkey : u.key = w.key := by simpa using List.find?_some hu
  rw [Wanted.first_eq hu, Wanted.tag_eq_of_key hkey]

variable (h : Recorded asked b) (hgapped : b.pool.Gapped)

include h hgapped

theorem utf8_eq {s : String} (hs : b.Knows (.utf8 s)) :
    b.pool.utf8 (b.indexOf (.utf8 s)) = .ok s :=
  have hentry := hgapped.entry (h.holds_plain hs rfl).slot
  by simp only [ConstantPool.utf8, ConstantPool.entryAs, hentry, Wanted.entry, bind, Except.bind]

theorem className_eq {name : String} {i : UInt16} (hi : b.Holds (.class_ name) i) :
    b.pool.className i = .ok name := by
  have hentry := hgapped.entry hi.slot
  simp only [ConstantPool.className, ConstantPool.entryAs, hentry, Wanted.entry, bind, Except.bind]
  exact h.utf8_eq hgapped (hi.parts _ (List.mem_singleton_self _)).1

theorem nameAndType_eq {name descriptor : String} {i : UInt16}
    (hi : b.Holds (.nameAndType name descriptor) i) :
    b.pool.nameAndType i = .ok (name, descriptor) := by
  have hname := h.utf8_eq hgapped (hi.parts (.utf8 name) (by simp [Wanted.parts])).1
  have hdescriptor := h.utf8_eq hgapped (hi.parts (.utf8 descriptor) (by simp [Wanted.parts])).1
  have hentry := hgapped.entry hi.slot
  simp only [ConstantPool.nameAndType, ConstantPool.entryAs, hentry, Wanted.entry, bind,
    Except.bind, hname, hdescriptor]
  rfl

theorem memberRef_eq {r : MemberRef} (hclass : b.Knows (.class_ r.className))
    (htype : b.Knows (.nameAndType r.name r.descriptor)) :
    b.pool.memberRef (b.indexOf (.class_ r.className))
      (b.indexOf (.nameAndType r.name r.descriptor)) = .ok (Wanted.member asked r) := by
  have hname := h.className_eq hgapped (h.holds_plain hclass rfl)
  have hheld := h.holds_first htype
  have htag := h.tag_first htype
  unfold Wanted.member
  cases hfirst : Wanted.first asked (.nameAndType r.name r.descriptor) with
  | nameAndType name descriptor =>
    rw [hfirst] at hheld
    simp only [ConstantPool.memberRef, hname, h.nameAndType_eq hgapped hheld, bind, Except.bind]
    rfl
  | _ =>
    rw [hfirst] at htag
    cases htag

/-- The index for a constant leads to the first that was asked for under its key. -/
theorem resolvesAt_meaning (hw : b.Knows w) :
    (w.meaning asked).ResolvesAt b.pool (b.indexOf w) := by
  have hheld := h.holds_first hw
  have hentry := hgapped.entry hheld.slot
  have hmember : ∀ r : MemberRef,
      (Wanted.first asked w).parts = [.class_ r.className, .nameAndType r.name r.descriptor] →
      b.pool.memberRef (b.indexOf (.class_ r.className))
        (b.indexOf (.nameAndType r.name r.descriptor)) = .ok (Wanted.member asked r) := by
    intro r hr
    exact h.memberRef_eq hgapped (hheld.parts _ (by simp [hr])).1 (hheld.parts _ (by simp [hr])).1
  unfold Wanted.meaning
  cases hfirst : Wanted.first asked w with
  | utf8 | integer | float | long | double =>
    rw [hfirst] at hentry
    simp only [Wanted.ResolvesAt, ConstantPool.utf8, ConstantPool.integer, ConstantPool.float,
      ConstantPool.long, ConstantPool.double, ConstantPool.entryAs, hentry, Wanted.entry, bind,
      Except.bind]
  | class_ name =>
    rw [hfirst] at hheld
    exact h.className_eq hgapped hheld
  | string s =>
    rw [hfirst] at hheld hentry
    simp only [Wanted.ResolvesAt, ConstantPool.string, ConstantPool.entryAs, hentry, Wanted.entry,
      bind, Except.bind]
    exact h.utf8_eq hgapped (hheld.parts _ (List.mem_singleton_self _)).1
  | nameAndType name descriptor =>
    rw [hfirst] at hheld
    exact h.nameAndType_eq hgapped hheld
  | fieldref r | methodref r | interfaceMethodref r =>
    rw [hfirst] at hentry hmember
    simp only [Wanted.ResolvesAt, ConstantPool.fieldref, ConstantPool.methodref,
      ConstantPool.interfaceMethodref, ConstantPool.entryAs, hentry, Wanted.entry, bind,
      Except.bind]
    exact hmember r rfl

end Recorded

/-! ### What is asked for later does not matter -/

theorem Wanted.exists_find? (hw : w ∈ asked) :
    ∃ u, asked.find? (fun v => v.key = w.key) = some u :=
  Option.isSome_iff_exists.mp (List.find?_isSome.mpr ⟨w, hw, by simp⟩)

theorem Wanted.first_append (hw : w ∈ asked) : first (asked ++ more) w = first asked w := by
  obtain ⟨u, hu⟩ := exists_find? hw
  rw [first, first, List.find?_append, hu]
  rfl

theorem mem_of_closed {before ws : List Wanted} (h : Closed before ws) (hw : w ∈ ws)
    (hv : v ∈ w.parts) : v ∈ before ++ ws := by
  induction ws generalizing before with
  | nil => cases hw
  | cons u ws ih =>
    rcases List.mem_cons.mp hw with rfl | hw
    · exact List.mem_append_left _ (h.1 v hv)
    · simpa using ih h.2 hw

theorem Wanted.first_mem (hw : w ∈ asked) : first asked w ∈ asked := by
  obtain ⟨u, hu⟩ := exists_find? hw
  rw [first_eq hu]
  exact List.mem_of_find?_eq_some hu

theorem Wanted.meaning_append (hclosed : Closed [] asked) (hw : w ∈ asked) :
    meaning (asked ++ more) w = meaning asked w := by
  have hmember : ∀ r : MemberRef, .nameAndType r.name r.descriptor ∈ (first asked w).parts →
      member (asked ++ more) r = member asked r := by
    intro r hr
    have hasked : .nameAndType r.name r.descriptor ∈ asked :=
      mem_of_closed hclosed (first_mem hw) hr
    rw [member, member, first_append hasked]
  rw [meaning, meaning, first_append hw]
  cases hfirst : first asked w with
  | fieldref r | methodref r | interfaceMethodref r =>
    rw [hfirst] at hmember
    simp only [hmember r (List.mem_cons_of_mem _ (List.mem_singleton_self _))]
  | _ => rfl

/-! ### Constants that keep their key to themselves -/

theorem Wanted.first_eq_self (h : ∀ v ∈ asked, v.key = w.key → v = w) : first asked w = w := by
  cases hfind : asked.find? fun v => v.key = w.key with
  | none => rw [first, hfind, Option.getD_none]
  | some u =>
    have hkey : u.key = w.key := by simpa using List.find?_some hfind
    rw [first_eq hfind, h u (List.mem_of_find?_eq_some hfind) hkey]

theorem Wanted.meaning_eq_self (h : ∀ u ∈ w :: w.parts, ∀ v ∈ asked, v.key = u.key → v = u) :
    meaning asked w = w := by
  have hself := first_eq_self (h w (List.mem_cons_self ..))
  have hmember : ∀ r : MemberRef, .nameAndType r.name r.descriptor ∈ w.parts →
      member asked r = r := by
    intro r hr
    rw [member, first_eq_self (h _ (List.mem_cons_of_mem _ hr))]
  rw [meaning, hself]
  cases w with
  | fieldref r | methodref r | interfaceMethodref r =>
    simp only [hmember r (List.mem_cons_of_mem _ (List.mem_singleton_self _))]
  | _ => rfl

/-- References whose parts can be told apart in their keys: no class name has a period, no name of a
field has a colon, and in that of a method no parenthesis stands before the descriptor. -/
def Wanted.WellNamed : Wanted → Prop
  | .nameAndType name _ => ':' ∉ name.toList
  | .fieldref r => '.' ∉ r.className.toList ∧ ':' ∉ r.name.toList
  | .methodref r | .interfaceMethodref r =>
    '.' ∉ r.className.toList ∧ '(' ∉ r.name.toList ∧ ∃ rest, r.descriptor.toList = '(' :: rest
  | _ => True

theorem MemberRef.eq_of_parts {r s : MemberRef} (hclass : r.className.toList = s.className.toList)
    (hname : r.name.toList = s.name.toList)
    (hdescriptor : r.descriptor.toList = s.descriptor.toList) : r = s := by
  cases r
  cases s
  rw [MemberRef.mk.injEq]
  exact ⟨String.toList_injective hclass, String.toList_injective hname,
    String.toList_injective hdescriptor⟩

/-- Texts of method references are told apart at the first period and the first parenthesis. -/
theorem MemberRef.text_injective {r s : MemberRef} (hr : (Wanted.methodref r).WellNamed)
    (hs : (Wanted.methodref s).WellNamed) (h : r.text = s.text) : r = s := by
  obtain ⟨hrclass, hrname, x, hx⟩ := hr
  obtain ⟨hsclass, hsname, y, hy⟩ := hs
  have hlist := congrArg String.toList h
  simp only [MemberRef.text, String.toList_append, hx, hy, List.append_assoc] at hlist
  obtain ⟨hclass, hrest⟩ := Text.append_separator_inj hrclass hsclass hlist
  obtain ⟨hname, hdescriptor⟩ := Text.append_separator_inj hrname hsname hrest
  exact eq_of_parts hclass hname (by rw [hx, hy, hdescriptor])

theorem Wanted.eq_of_key_of_wellNamed (hw : w.WellNamed) (hv : v.WellNamed) (h : w.key = v.key) :
    w = v := by
  have htext := (key_eq_iff.mp h).2
  have htag := tag_eq_of_key h
  cases w with
  | nameAndType name descriptor =>
    cases v <;> cases htag
    rename_i name' descriptor'
    have hlist := congrArg String.toList htext
    simp only [text, String.toList_append, List.append_assoc] at hlist
    obtain ⟨hname, hdescriptor⟩ := Text.append_separator_inj hw hv hlist
    rw [String.toList_injective hname, String.toList_injective hdescriptor]
  | fieldref r =>
    cases v <;> cases htag
    rename_i s
    have hlist := congrArg String.toList htext
    simp only [text, String.toList_append, List.append_assoc] at hlist
    obtain ⟨hclass, hrest⟩ := Text.append_separator_inj hw.1 hv.1 hlist
    obtain ⟨hname, hdescriptor⟩ := Text.append_separator_inj hw.2 hv.2 hrest
    rw [MemberRef.eq_of_parts hclass hname hdescriptor]
  | methodref r | interfaceMethodref r =>
    cases v <;> cases htag
    exact congrArg _ (MemberRef.text_injective hw hv htext)
  | utf8 | class_ | string | integer | float | long | double => exact eq_of_key rfl h

end

/-! ### Returned indices -/

theorem history_append (name superName : String) (before after : List Request) :
    history name superName (before ++ after) = history name superName before ++
      (after.flatMap Request.wanted).flatMap Wanted.steps := by
  simp [history]

theorem history_closed (name superName : String) (requests : List Request) :
    Closed [] (history name superName requests) :=
  closed_flatMap [] _

theorem mem_history (name superName : String) (before : List Request) (w : Wanted) :
    w ∈ history name superName (before ++ [.constant w]) := by
  rw [history_append]
  simp [Request.wanted, Wanted.mem_steps]

theorem resolvesAt_returned {name superName : String} {flags : UInt16} {before : List Request}
    {w : Wanted} {after : List Request}
    (hcount : (assemble name superName flags (before ++ .constant w :: after)).pool.count ≤ 65535) :
    (w.meaning (history name superName (before ++ [.constant w]))).ResolvesAt
      (assemble name superName flags (before ++ .constant w :: after)).pool
      (w.ask (assemble name superName flags before)).1 := by
  have hmem := mem_history name superName before w
  have hrecorded := assemble_recorded hcount
  rw [List.append_cons, history_append, ← List.append_cons] at hrecorded
  rw [← Wanted.meaning_append (history_closed ..) hmem, returned_eq before w after]
  exact hrecorded.resolvesAt_meaning (assemble_gapped _)
    (hrecorded.known w (List.mem_append_left _ hmem))

/-- References whose parts can be told apart lead to exactly what was asked for. -/
theorem resolvesAt_of_wellNamed (name superName : String) (flags : UInt16)
    (before : List Request) (w : Wanted) (after : List Request)
    (hcount : (assemble name superName flags (before ++ .constant w :: after)).pool.count ≤ 65535)
    (hnamed : ∀ v ∈ history name superName (before ++ [.constant w]), v.WellNamed) :
    w.ResolvesAt (assemble name superName flags (before ++ .constant w :: after)).pool
      (w.ask (assemble name superName flags before)).1 := by
  have hmem := mem_history name superName before w
  have hasked : ∀ u ∈ w :: w.parts, u ∈ history name superName (before ++ [.constant w]) := by
    intro u hu
    rcases List.mem_cons.mp hu with rfl | hpart
    · exact hmem
    · simpa using mem_of_closed (history_closed name superName _) hmem hpart
  have hmeaning := resolvesAt_returned hcount
  rwa [Wanted.meaning_eq_self fun u hu v hv hkey =>
    Wanted.eq_of_key_of_wellNamed (hnamed v hv) (hnamed u (hasked u hu)) hkey] at hmeaning

/-- The index that is returned for a constant leads to the first constant that had been asked for
under its key, and thus to the constant itself if nothing else had been asked for under its key and
those of its parts. -/
theorem index_resolves (name superName : String) (flags : UInt16) (before : List Request)
    (w : Wanted) (after : List Request)
    (hcount : (assemble name superName flags (before ++ .constant w :: after)).pool.count ≤ 65535) :
    let asked := history name superName (before ++ [.constant w])
    let pool := (assemble name superName flags (before ++ .constant w :: after)).pool
    let index := (w.ask (assemble name superName flags before)).1
    (w.meaning asked).ResolvesAt pool index ∧
      ((∀ u ∈ w :: w.parts, ∀ v ∈ asked, v.key = u.key → v = u) → w.ResolvesAt pool index) := by
  intro asked pool index
  have hmeaning : (w.meaning asked).ResolvesAt pool index := resolvesAt_returned hcount
  refine ⟨hmeaning, fun h => ?_⟩
  rwa [Wanted.meaning_eq_self h] at hmeaning

/-- A member is asked for whose name with its descriptor has the key of another one. -/
theorem index_resolves_clash :
    (assemble "A" "" 0x21 [.constant (.nameAndType "a" "Lx:Lz;"),
      .constant (.fieldref ⟨"A", "a:Lx", "Lz;"⟩), .constant (.long 7)]).pool.count ≤ 65535 ∧
    (Wanted.fieldref ⟨"A", "a", "Lx:Lz;"⟩).ResolvesAt
      (assemble "A" "" 0x21 [.constant (.nameAndType "a" "Lx:Lz;"),
        .constant (.fieldref ⟨"A", "a:Lx", "Lz;"⟩), .constant (.long 7)]).pool
      ((Wanted.fieldref ⟨"A", "a:Lx", "Lz;"⟩).ask
        (assemble "A" "" 0x21 [.constant (.nameAndType "a" "Lx:Lz;")])).1 :=
  have hcount : (assemble "A" "" 0x21 [.constant (.nameAndType "a" "Lx:Lz;"),
      .constant (.fieldref ⟨"A", "a:Lx", "Lz;"⟩), .constant (.long 7)]).pool.count ≤ 65535 := by
    decide +kernel
  ⟨hcount, (index_resolves "A" "" 0x21 [.constant (.nameAndType "a" "Lx:Lz;")]
    (.fieldref ⟨"A", "a:Lx", "Lz;"⟩) [.constant (.long 7)] hcount).1⟩

/-- Two names with descriptors that share a key: the index for the second leads to the first. -/
theorem nameAndType_collision :
    (assemble "A" "" 0x21 [.constant (.nameAndType "a" "Lx:Lz;"),
      .constant (.nameAndType "a:Lx" "Lz;")]).pool.count ≤ 65535 ∧
    ¬ (Wanted.nameAndType "a:Lx" "Lz;").ResolvesAt
      (assemble "A" "" 0x21 [.constant (.nameAndType "a" "Lx:Lz;"),
        .constant (.nameAndType "a:Lx" "Lz;")]).pool
      ((Wanted.nameAndType "a:Lx" "Lz;").ask
        (assemble "A" "" 0x21 [.constant (.nameAndType "a" "Lx:Lz;")])).1 := by
  have hother : (assemble "A" "" 0x21 [.constant (.nameAndType "a" "Lx:Lz;"),
        .constant (.nameAndType "a:Lx" "Lz;")]).pool.nameAndType
      ((Wanted.nameAndType "a:Lx" "Lz;").ask
        (assemble "A" "" 0x21 [.constant (.nameAndType "a" "Lx:Lz;")])).1 =
      .ok ("a", "Lx:Lz;") := rfl
  refine ⟨by decide +kernel, fun h => ?_⟩
  have heq := hother.symm.trans h
  simp at heq

end Builder

end Jvm
