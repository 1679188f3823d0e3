import Jvm.Proofs.Builder.Outline
import Jvm.Proofs.Builder.References
import Jvm.Proofs.ClassFile.AttributeCodec
import Jvm.Proofs.ClassFile.Resolved

/-!
# Building a class

A class whose pool, lists, strings and bodies are short enough for their length fields is written
and read back with the outline that was asked for. The writer does not check the lengths: with a
longer string the bytes are written all the same and are no class file (`long_string_unread`).
-/

namespace Jvm

/-! ### Pools with the same entries -/

namespace ConstantPool

variable {p q : ConstantPool}

/-- Pools that differ in the bytes that strings were read from only. -/
def Alike (p q : ConstantPool) : Prop :=
  p.slots.map (Option.map Constant.bare) = q.slots.map (Option.map Constant.bare)

theorem Alike.entry (h : p.Alike q) (i : UInt16) :
    (p.entry i).map Constant.bare = (q.entry i).map Constant.bare := by
  have hcount : p.count = q.count := by
    simpa [count] using congrArg Array.size h
  have hslot : (p.slot? i).map Constant.bare = (q.slot? i).map Constant.bare := by
    have hget : p.slots[i.toNat]?.map (Option.map Constant.bare) =
        q.slots[i.toNat]?.map (Option.map Constant.bare) := by
      simpa using congrArg (fun slots => slots[i.toNat]?) h
    unfold slot?
    cases hp : p.slots[i.toNat]? <;> cases hq : q.slots[i.toNat]? <;> simp_all
  unfold ConstantPool.entry
  rw [hcount]
  split
  · rfl
  · cases hp : p.slot? i <;> cases hq : q.slot? i <;> simp_all [Except.map]

theorem Alike.entryAs {α : Type} (h : p.Alike q) (i : UInt16) (want : ConstantTag)
    {part : Constant → Option α} (hpart : ∀ c, part c.bare = part c) :
    p.entryAs i want part = q.entryAs i want part := by
  have hentry := h.entry i
  unfold ConstantPool.entryAs
  cases hp : p.entry i <;> cases hq : q.entry i <;> rw [hp, hq] at hentry
  · exact congrArg _ (Except.error.inj hentry)
  · cases hentry
  · cases hentry
  · rename_i c d
    have hbare : c.bare = d.bare := Except.ok.inj hentry
    have htag : c.tag = d.tag := by rw [← c.tag_bare, hbare, d.tag_bare]
    simp only [bind, Except.bind]
    rw [← hpart c, hbare, hpart d, htag]

theorem Alike.utf8 (h : p.Alike q) (i : UInt16) : p.utf8 i = q.utf8 i :=
  h.entryAs i .utf8 fun c => by cases c <;> rfl

theorem Alike.className (h : p.Alike q) (i : UInt16) : p.className i = q.className i := by
  simp only [ConstantPool.className, h.utf8]
  rw [h.entryAs i .classRef fun c => by cases c <;> rfl]

end ConstantPool

/-! ### Members written and read back -/

theorem map_eq_of_map_eq {α β γ : Type} {f : α → γ} {g : β → γ} {h : α → β} {xs : List α}
    {ys : List β} (hmap : xs.map f = ys.map g)
    (hpair : ∀ x ∈ xs, ∀ y ∈ ys, f x = g y → h x = y) : xs.map h = ys := by
  induction xs generalizing ys with
  | nil =>
    cases ys with
    | nil => rfl
    | cons y ys => cases hmap
  | cons x xs ih =>
    cases ys with
    | nil => cases hmap
    | cons y ys =>
      obtain ⟨hxy, hmap⟩ := List.cons.inj hmap
      rw [List.map_cons, hpair x (List.mem_cons_self ..) y (List.mem_cons_self ..) hxy,
        ih hmap fun x hx y hy => hpair x (List.mem_cons_of_mem _ hx) y (List.mem_cons_of_mem _ hy)]

namespace Member

open Builder

variable {m : Member} {index : Wanted → UInt16} {pool : ConstantPool} {flags i j : UInt16}
  {as : List Attribute}

/-- A pool in which an index of every string of a member leads to that string. -/
def NamedIn (m : Member) (index : Wanted → UInt16) (pool : ConstantPool) : Prop :=
  ∀ s, .utf8 s ∈ m.wanted → pool.utf8 (index (.utf8 s)) = .ok s

/-- A member whose attribute is short enough and can be decoded. -/
def Sized (m : Member) : Prop :=
  ∀ info ∈ m.info, info.length < 4294967296 ∧
    ∀ pool, ∃ body, Attribute.decode pool m.label info = .ok body

theorem NamedIn.label (h : m.NamedIn index pool) {info : Bytes} (hinfo : info ∈ m.info) :
    pool.utf8 (index (.utf8 m.label)) = .ok m.label :=
  h m.label (by simp [wanted, Option.mem_def.mp hinfo])

theorem eq_of_content (h : (flags, i, j, as.map Attribute.content) = m.content index) :
    flags = m.flags ∧ i = index (.utf8 m.name) ∧ j = index (.utf8 m.descriptor) ∧
      as.map Attribute.content = m.info.toList.map fun info => (index (.utf8 m.label), info) := by
  simpa [content] using h

theorem readable (hnamed : m.NamedIn index pool) (hsized : m.Sized)
    (hcontent : (flags, i, j, as.map Attribute.content) = m.content index) :
    MemberReadable pool i j as := by
  obtain ⟨-, rfl, rfl, has⟩ := eq_of_content hcontent
  refine ⟨⟨_, hnamed m.name (by simp [wanted])⟩, ⟨_, hnamed m.descriptor (by simp [wanted])⟩,
    ?_, fun a ha => ?_⟩
  · have hlen := congrArg List.length has
    rw [List.length_map, List.length_map] at hlen
    have hone : m.info.toList.length ≤ 1 := by
      cases m.info <;> simp
    omega
  · have hmem := List.mem_map_of_mem (f := Attribute.content) ha
    rw [has] at hmem
    obtain ⟨info, hinfo, heq⟩ := List.mem_map.mp hmem
    have hinfo : info ∈ m.info := by simpa using hinfo
    obtain ⟨hname, rfl⟩ : index (.utf8 m.label) = a.nameIndex ∧ info = a.info := Prod.mk.inj heq
    obtain ⟨hlen, hdecode⟩ := hsized a.info hinfo
    obtain ⟨body, hbody⟩ := hdecode pool
    refine ⟨hlen, m.label, body, ?_, hbody⟩
    rw [← hname]
    exact hnamed.label hinfo

/-- A member that was read back has the name, the descriptor and the attribute it was written
with. -/
theorem read_back {name descriptor : String} (hnamed : m.NamedIn index pool)
    (hcontent : (flags, i, j, as.map Attribute.content) = m.content index)
    (hresolved : MemberResolved pool i j as name descriptor) :
    flags = m.flags ∧ name = m.name ∧ descriptor = m.descriptor ∧ (m.info = none → as = []) ∧
      ∀ info, m.info = some info → ∃ a, as = [a] ∧ a.name = m.label ∧
        Attribute.decode pool m.label info = .ok a.body := by
  obtain ⟨hflags, rfl, rfl, has⟩ := eq_of_content hcontent
  have hname := hresolved.name.symm.trans (hnamed m.name (by simp [wanted]))
  have hdescriptor := hresolved.descriptor.symm.trans (hnamed m.descriptor (by simp [wanted]))
  refine ⟨hflags, Except.ok.inj hname, Except.ok.inj hdescriptor, fun hnone => ?_,
    fun info hsome => ?_⟩
  · simpa [hnone] using has
  · obtain ⟨a, rfl⟩ : ∃ a, as = [a] := by
      have hlen := congrArg List.length has
      simpa [hsome, List.length_eq_one_iff] using hlen
    obtain ⟨hindex, rfl⟩ : a.nameIndex = index (.utf8 m.label) ∧ a.info = info := by
      simpa [hsome, Attribute.content] using has
    obtain ⟨haname, habody, -⟩ := hresolved.attributes a (List.mem_singleton_self a)
    rw [hindex, hnamed.label hsome] at haname
    have hlabel : m.label = a.name := Except.ok.inj haname
    exact ⟨a, rfl, hlabel.symm, by rw [hlabel, habody]⟩

end Member

namespace FieldOutline

variable {f : FieldOutline}

theorem sized (f : FieldOutline) : f.member.Sized := by
  intro info hinfo
  obtain ⟨v, -, rfl⟩ : ∃ v, f.value = some v ∧ Bytes.ofU2 v = info := by
    simpa [member] using hinfo
  exact ⟨by simp, fun pool => ⟨_, Attribute.decode_constantValue pool v⟩⟩

theorem outline_eq {g : Field} {index : Builder.Wanted → UInt16} {pool : ConstantPool}
    (hnamed : f.member.NamedIn index pool) (hcontent : g.content = f.member.content index)
    (hresolved : MemberResolved pool g.nameIndex g.descriptorIndex g.attributes g.name
      g.descriptor) : g.outline = f := by
  obtain ⟨hflags, hname, hdescriptor, hnone, hsome⟩ := Member.read_back hnamed hcontent hresolved
  have hvalue : g.outline.value = f.value := by
    unfold Field.outline
    cases hv : f.value with
    | none =>
      rw [hnone (by simp [member, hv])]
      rfl
    | some v =>
      obtain ⟨a, ha, haname, hbody⟩ := hsome (Bytes.ofU2 v) (by simp [member, hv])
      have hbody : a.body = .constantValue v :=
        (Except.ok.inj ((Attribute.decode_constantValue pool v).symm.trans hbody)).symm
      simp [ha, Attribute.find?, haname, member, Attribute.constantValue?, hbody]
  cases f
  simp only [Field.outline, FieldOutline.mk.injEq]
  exact ⟨hflags, hname, hdescriptor, hvalue⟩

end FieldOutline

namespace MethodOutline

variable {m : MethodOutline}

theorem sized (hcode : ∀ c ∈ m.code, c.2.2.length + 12 < 4294967296) : m.member.Sized := by
  intro info hinfo
  obtain ⟨c, hc, rfl⟩ : ∃ c, m.code = some c ∧ Builder.encodeCode c.1 c.2.1 c.2.2 = info := by
    simpa [member] using hinfo
  have hlen := hcode c hc
  have hbody : c.2.2.length < 4294967296 := by omega
  refine ⟨?_, fun pool => ⟨_, (Attribute.decode_encodeCode_iff pool c.1 c.2.1 _).mpr hbody⟩⟩
  simp [Builder.encodeCode]
  omega

theorem outline_eq {n : Method} {index : Builder.Wanted → UInt16} {pool : ConstantPool}
    (hnamed : m.member.NamedIn index pool) (hcontent : n.content = m.member.content index)
    (hcode : ∀ c ∈ m.code, c.2.2.length + 12 < 4294967296)
    (hresolved : MemberResolved pool n.nameIndex n.descriptorIndex n.attributes n.name
      n.descriptor) : n.outline = m := by
  obtain ⟨hflags, hname, hdescriptor, hnone, hsome⟩ := Member.read_back hnamed hcontent hresolved
  have hbody : n.outline.code = m.code := by
    unfold Method.outline Method.code?
    cases hc : m.code with
    | none =>
      rw [hnone (by simp [member, hc])]
      rfl
    | some c =>
      have hlen := hcode c hc
      obtain ⟨a, ha, haname, hbody⟩ := hsome (Builder.encodeCode c.1 c.2.1 c.2.2)
        (by simp [member, hc])
      have hdecode := (Attribute.decode_encodeCode_iff pool c.1 c.2.1 c.2.2).mpr (by omega)
      have hbody : a.body = .code (Code.make c.1 c.2.1 c.2.2 [] []) :=
        (Except.ok.inj (hdecode.symm.trans hbody)).symm
      simp [ha, Attribute.find?, haname, member, Attribute.code?, hbody, Code.make]
  cases m
  simp only [Method.outline, MethodOutline.mk.injEq]
  exact ⟨hflags, hname, hdescriptor, hbody⟩

end MethodOutline

instance (c : Constant) : Decidable c.Fits :=
  match c with
  | .utf8 value raw => inferInstanceAs (Decidable ((Constant.utf8Bytes value raw).length ≤ 65535))
  | .integer _ | .float _ | .long _ | .double _ | .classRef _ | .string _ | .fieldref .. |
    .methodref .. | .interfaceMethodref .. | .nameAndType .. | .methodHandle .. | .methodType _ |
    .dynamic .. | .invokeDynamic .. | .module _ | .package _ => .isTrue trivial

namespace Builder

variable {b : Builder} {o : ClassOutline} {asked : List Wanted}

/-- A class that is short enough for the length fields of a class file. -/
structure Fits (b : Builder) : Prop where
  count_le : b.pool.count ≤ 65535
  strings : ∀ c, some c ∈ b.slots → c.Fits
  interfaces_le : b.interfaces.size ≤ 65535
  fields_le : b.fields.size ≤ 65535
  methods_le : b.methods.size ≤ 65535
  /-- Twelve bytes of the attribute are around the code. -/
  code_lt : ∀ m ∈ b.methods, ∀ a ∈ m.attributes, a.info.length < 4294967296

theorem ne_zero_of_className {p : ConstantPool} {i : UInt16} {name : String}
    (h : p.className i = .ok name) : i ≠ 0 := by
  rintro rfl
  simp only [ConstantPool.className, ConstantPool.entryAs, ConstantPool.entry, true_or, if_true,
    bind, Except.bind] at h
  cases h

namespace Follows

variable (h : b.Follows o) (hrecorded : Recorded asked b) (hgapped : b.pool.Gapped)

include h hrecorded hgapped

theorem className_eq {name : String} (hname : .class_ name ∈ o.wanted) :
    b.pool.className (b.indexOf (.class_ name)) = .ok name :=
  hrecorded.className_eq hgapped (hrecorded.holds_plain (h.known _ hname) rfl)

theorem namedIn {m : Member} (hm : ∀ w ∈ m.wanted, w ∈ o.wanted) :
    m.NamedIn b.indexOf b.pool :=
  fun _ hs => hrecorded.utf8_eq hgapped (h.known _ (hm _ hs))

theorem thisClass_eq : b.pool.className b.thisClass = .ok o.name := by
  rw [h.thisClass]
  exact h.className_eq hrecorded hgapped (by simp [ClassOutline.wanted, opening])

theorem superClass_eq (hne : o.superName ≠ "") :
    b.pool.className b.superClass = .ok o.superName := by
  rw [h.superClass, if_neg hne]
  exact h.className_eq hrecorded hgapped (by simp [ClassOutline.wanted, opening, hne])

theorem interface_eq {name : String} (hname : name ∈ o.interfaces) :
    b.pool.className (b.indexOf (.class_ name)) = .ok name :=
  h.className_eq hrecorded hgapped (by simp [ClassOutline.wanted, hname])

theorem field_namedIn {f : FieldOutline} (hf : f ∈ o.fields) :
    f.member.NamedIn b.indexOf b.pool :=
  h.namedIn hrecorded hgapped fun _ hw =>
    List.mem_append_left _ (List.mem_append_right _ (List.mem_flatMap.mpr ⟨f, hf, hw⟩))

theorem method_namedIn {m : MethodOutline} (hm : m ∈ o.methods) :
    m.member.NamedIn b.indexOf b.pool :=
  h.namedIn hrecorded hgapped fun _ hw =>
    List.mem_append_right _ (List.mem_flatMap.mpr ⟨m, hm, hw⟩)

omit hrecorded hgapped in
theorem code_length (hfits : b.Fits) {m : MethodOutline} (hm : m ∈ o.methods) :
    ∀ c ∈ m.code, c.2.2.length + 12 < 4294967296 := by
  intro c hc
  have hmem : m.member.content b.indexOf ∈ b.methods.toList.map Method.content := by
    rw [h.methods]
    exact List.mem_map_of_mem hm
  obtain ⟨n, hn, hcontent⟩ := List.mem_map.mp hmem
  have hattributes : n.attributes.map Attribute.content =
      [(b.indexOf (.utf8 "Code"), encodeCode c.1 c.2.1 c.2.2)] := by
    have hthird := congrArg (fun content => content.2.2.2) hcontent
    simpa [Method.content, Member.content, MethodOutline.member, Option.mem_def.mp hc] using hthird
  obtain ⟨a, ha⟩ : ∃ a, n.attributes = [a] := by
    have hlen := congrArg List.length hattributes
    simpa [List.length_eq_one_iff] using hlen
  have hinfo : a.info = encodeCode c.1 c.2.1 c.2.2 := by
    rw [ha] at hattributes
    exact congrArg Prod.snd (List.singleton_inj.mp hattributes)
  have hlt := hfits.code_lt n (by simpa using hn) a (by rw [ha]; exact List.mem_singleton_self a)
  rw [hinfo] at hlt
  simp [encodeCode] at hlt
  omega

/-- A class that fits can be written and read again. -/
theorem readable (hfits : b.Fits) : b.classFile.Readable where
  pool := ⟨hfits.count_le, hgapped.zero, hgapped.gap, hfits.strings⟩
  thisClass := ⟨_, h.thisClass_eq hrecorded hgapped⟩
  superClass hne := by
    have hsome : o.superName ≠ "" := by
      intro hnone
      have hzero := h.superClass
      rw [if_pos hnone] at hzero
      exact hne hzero
    exact ⟨_, h.superClass_eq hrecorded hgapped hsome⟩
  interfaces_le := by simpa [classFile] using hfits.interfaces_le
  interfaces i hi := by
    have hmem : i ∈ o.interfaces.map fun name => b.indexOf (.class_ name) := by
      rw [← h.interfaces]
      exact hi
    obtain ⟨name, hname, rfl⟩ := List.mem_map.mp hmem
    exact ⟨name, h.interface_eq hrecorded hgapped hname⟩
  fields_le := by simpa [classFile] using hfits.fields_le
  fields g hg := by
    have hmem := List.mem_map_of_mem (f := Field.content) (show g ∈ b.fields.toList from hg)
    rw [h.fields] at hmem
    obtain ⟨f, hf, hcontent⟩ := List.mem_map.mp hmem
    exact Member.readable (h.field_namedIn hrecorded hgapped hf) f.sized hcontent.symm
  methods_le := by simpa [classFile] using hfits.methods_le
  methods n hn := by
    have hmem := List.mem_map_of_mem (f := Method.content) (show n ∈ b.methods.toList from hn)
    rw [h.methods] at hmem
    obtain ⟨m, hm, hcontent⟩ := List.mem_map.mp hmem
    exact Member.readable (h.method_namedIn hrecorded hgapped hm)
      (MethodOutline.sized (h.code_length hfits hm)) hcontent.symm
  attributes := by
    have hnone : b.classFile.attributes = [] := by simp [classFile, h.attributes]
    rw [hnone]
    exact ⟨by simp, fun a ha => absurd ha List.not_mem_nil⟩

/-- A class file with the content of the builder that agrees with its own pool has the outline. -/
theorem outline_eq (hfits : b.Fits) {c : ClassFile} {data : Bytes}
    (hsame : ClassFile.SameContent b.classFile c) (hresolved : c.Resolved data) :
    c.outline = o := by
  have halike : b.pool.Alike c.pool := hsame.pool
  have hnamed : ∀ {m : Member}, m.NamedIn b.indexOf b.pool → m.NamedIn b.indexOf c.pool := by
    intro m hm s hs
    rw [← halike.utf8]
    exact hm s hs
  have hname : c.name = o.name := by
    have hthis := h.thisClass_eq hrecorded hgapped
    rw [show b.thisClass = c.thisClass from hsame.thisClass, halike.className,
      hresolved.name] at hthis
    exact Except.ok.inj hthis
  have hsuper : c.superName = o.superName := by
    have hindex : b.superClass = c.superClass := hsame.superClass
    by_cases hnone : o.superName = ""
    · rw [hnone]
      refine hresolved.noSuperName ?_
      rw [← hindex, h.superClass, if_pos hnone]
    · have hclass := h.superClass_eq hrecorded hgapped hnone
      rw [hindex, halike.className] at hclass
      rw [hresolved.superName (ne_zero_of_className hclass)] at hclass
      exact Except.ok.inj hclass
  have hinterfaces : c.interfaceNames = o.interfaces := by
    have hindices : c.interfaces = o.interfaces.map fun name => b.indexOf (.class_ name) :=
      hsame.interfaces.symm.trans h.interfaces
    have hnames := hresolved.interfaceNames.symm
    rw [hindices, List.map_map] at hnames
    have hmap := map_eq_of_map_eq (h := id) hnames fun name _ asked hasked heq => by
      rw [Function.comp_apply, ← halike.className, h.interface_eq hrecorded hgapped hasked] at heq
      exact Except.ok.inj heq
    rwa [List.map_id] at hmap
  have hfields : c.fields.map Field.outline = o.fields :=
    map_eq_of_map_eq (hsame.fields.symm.trans h.fields) fun g hg f hf hcontent =>
      FieldOutline.outline_eq (hnamed (h.field_namedIn hrecorded hgapped hf)) hcontent
        (hresolved.fields g hg)
  have hmethods : c.methods.map Method.outline = o.methods :=
    map_eq_of_map_eq (hsame.methods.symm.trans h.methods) fun n hn m hm hcontent =>
      MethodOutline.outline_eq (hnamed (h.method_namedIn hrecorded hgapped hm)) hcontent
        (h.code_length hfits hm) (hresolved.methods n hn)
  have hflags : c.flags = o.flags := hsame.flags.symm.trans h.flags
  have hmajor : c.major = o.major := hsame.major.symm.trans h.major
  have hminor : c.minor = o.minor := hsame.minor.symm.trans h.minor
  cases o
  simp only [ClassFile.outline, ClassOutline.mk.injEq]
  exact ⟨hname, hsuper, hflags, hmajor, hminor, hinterfaces, hfields, hmethods⟩

end Follows

/-! ### Building -/

/-- A class that is assembled without raw attributes can be written, and if it is short enough for
the length fields, it is built with the outline that was requested. -/
theorem build_outline (name superName : String) (flags : UInt16) (requests : List Request)
    (hraw : ∀ r ∈ requests, r.isRaw = false) :
    (∃ data, (assemble name superName flags requests).bytes = .ok data) ∧
      ((assemble name superName flags requests).Fits →
        ∃ c, (assemble name superName flags requests).build = .ok c ∧
          c.outline = .requested name superName flags requests) := by
  refine ⟨bytes_eq requests, fun hfits => ?_⟩
  have hfollows := assemble_follows name superName flags hraw
  have hrecorded := assemble_recorded hfits.count_le
  have hgapped : (assemble name superName flags requests).pool.Gapped := assemble_gapped requests
  obtain ⟨data, c, hencode, hread, hsame⟩ :=
    (hfollows.readable hrecorded hgapped hfits).parser_reads
  have hparser := Parser.eq_ok_of_reads hread []
  rw [List.append_nil] at hparser
  refine ⟨c, ?_, hfollows.outline_eq hrecorded hgapped hfits hsame
    (ClassFile.parser_resolved hparser)⟩
  simp only [build, bytes, hencode, bind, Except.bind, ClassFile.parse, hparser]

/-- Requests for members of every kind, with and without attributes. -/
def members : List Request :=
  [.version 55 1, .implements ["I"], .constantField 0x10 "c" "I" 7, .constant (.long 9),
    .method 9 "m" "()I" 1 0 (some [0x03, 0xAC]), .field 2 "f" "J", .method 0x401 "n" "()V" 0 0 none]

theorem members_fit : (assemble "A" "B" 0x21 members).Fits where
  count_le := by decide +kernel
  strings c hc := by
    have hall : (assemble "A" "B" 0x21 members).slots.all
        (fun slot => slot.all fun c => decide c.Fits) = true := by decide +kernel
    simpa using Array.all_eq_true_iff_forall_mem.mp hall (some c) hc
  interfaces_le := by decide +kernel
  fields_le := by decide +kernel
  methods_le := by decide +kernel
  code_lt m hm a ha := by
    have hall : (assemble "A" "B" 0x21 members).methods.all
        (fun m => m.attributes.all fun a => decide (a.info.length < 4294967296)) = true := by
      decide +kernel
    have hmethod := List.all_eq_true.mp (Array.all_eq_true_iff_forall_mem.mp hall m hm) a ha
    exact of_decide_eq_true hmethod

theorem build_outline_members :
    (∀ r ∈ members, r.isRaw = false) ∧
      (∃ data, (assemble "A" "B" 0x21 members).bytes = .ok data) ∧
      ∃ c, (assemble "A" "B" 0x21 members).build = .ok c ∧
        c.outline = .requested "A" "B" 0x21 members :=
  have hraw : ∀ r ∈ members, r.isRaw = false := by decide
  ⟨hraw, (build_outline "A" "B" 0x21 members hraw).1,
    (build_outline "A" "B" 0x21 members hraw).2 members_fit⟩

example : ClassOutline.requested "A" "B" 0x21 members =
    ⟨"A", "B", 0x21, 55, 1, ["I"], [⟨0x18, "c", "I", some 7⟩, ⟨2, "f", "J", none⟩],
      [⟨9, "m", "()I", some (1, 0, [0x03, 0xAC])⟩, ⟨0x401, "n", "()V", none⟩]⟩ := rfl

/-! ### A string that is too long -/

def letters (n : Nat) : String := String.ofList (List.replicate n 'a')

theorem encode_letters (n : Nat) : Text.ModifiedUtf8.encode (letters n) = List.replicate n 97 := by
  have hletter : (Text.ModifiedUtf8.unitsOfChar 'a').flatMap Text.ModifiedUtf8.bytesOfUnit = [97] :=
    rfl
  rw [Text.ModifiedUtf8.encode, letters, String.toList_ofList, List.flatMap_assoc,
    List.flatMap_replicate, hletter, List.flatten_replicate_singleton]

theorem letters_new {n : Nat} (hn : 1 < n) :
    (new "A" "" 0x21).interned.lookup (Wanted.utf8 (letters n)).key = none := by
  have hne : letters n ≠ "A" := by
    intro h
    have hlen : (letters n).toList.length = 1 := congrArg (fun s => s.toList.length) h
    rw [letters, String.toList_ofList, List.length_replicate] at hlen
    omega
  have hclass : (Wanted.utf8 (letters n)).key ≠ "class:A" := fun h =>
    nomatch Wanted.eq_of_key (v := .class_ "A") rfl h
  have hutf8 : (Wanted.utf8 (letters n)).key ≠ "utf8:A" := fun h =>
    hne (Wanted.utf8.inj (Wanted.eq_of_key (v := .utf8 "A") rfl h))
  have hinterned : (new "A" "" 0x21).interned = [("class:A", 2), ("utf8:A", 1)] := rfl
  rw [hinterned, List.lookup_cons, beq_false_of_ne hclass, List.lookup_cons,
    beq_false_of_ne hutf8, List.lookup_nil]

theorem encode_pool_letters (n : Nat) :
    ConstantPool.encode ⟨#[none, some (.utf8 "A" none), some (.classRef 1),
      some (.utf8 (letters n) none)]⟩ =
      .ok ([0, 4, 1, 0, 1, 65, 7, 0, 1, 1] ++
        (Bytes.ofU2 (UInt16.ofNat n) ++ List.replicate n 97)) := by
  have hfirst : Constant.encode (.utf8 "A" none) = [1, 0, 1, 65] := rfl
  have hsecond : Constant.encode (.classRef 1) = [7, 0, 1] := rfl
  have hthird : Constant.encode (.utf8 (letters n) none) =
      1 :: (Bytes.ofU2 (UInt16.ofNat n) ++ List.replicate n 97) := by
    simp [Constant.encode, Constant.payload, Constant.utf8Bytes, encode_letters, Constant.tag,
      ConstantTag.code]
  simp [ConstantPool.encode, ConstantPool.entriesOnto, ConstantPool.count, Constant.isWide,
    hfirst, hsecond, hthird]
  rfl

theorem bytes_letters {n : Nat} (hn : 1 < n) :
    (assemble "A" "" 0x21 [.constant (.utf8 (letters n))]).bytes =
      .ok ([0xCA, 0xFE, 0xBA, 0xBE, 0, 0, 0, 52, 0, 4, 1, 0, 1, 65, 7, 0, 1, 1] ++
        Bytes.ofU2 (UInt16.ofNat n) ++ List.replicate n 97 ++
        [0, 0x21, 0, 2, 0, 0, 0, 0, 0, 0, 0, 0, 0, 0]) := by
  have hask : assemble "A" "" 0x21 [.constant (.utf8 (letters n))] =
      (new "A" "" 0x21).add (.utf8 (letters n)) := rfl
  rcases add_cases (new "A" "" 0x21) (.utf8 (letters n)) with ⟨hknown, -⟩ | ⟨-, heq⟩
  · rw [Knows, letters_new hn] at hknown
    cases hknown
  · have hnew : (new "A" "" 0x21).slots = #[none, some (.utf8 "A" none), some (.classRef 1)] := rfl
    have hslots : (new "A" "" 0x21).slots ++ (Constant.utf8 (letters n) none).slots.toArray =
        #[none, some (.utf8 "A" none), some (.classRef 1), some (.utf8 (letters n) none)] := by
      rw [hnew]
      simp [Constant.slots, Constant.isWide]
    rw [hask, heq, bytes, ClassFile.encode]
    simp only [classFile, Wanted.entry, hslots, encode_pool_letters, bind, Except.bind,
      List.append_assoc]
    rfl

/-- However much of the letters follows, a class file in which their number is written as 0 ends its
pool before them and takes them for the header. -/
theorem parse_letters (rest : Bytes) :
    ∃ f, ClassFile.parse ([0xCA, 0xFE, 0xBA, 0xBE, 0, 0, 0, 52, 0, 4, 1, 0, 1, 65, 7, 0, 1, 1] ++
      [0, 0] ++ List.replicate 8 97 ++ rest) = .error f :=
  ⟨_, rfl⟩

/-- A string whose length is written as 0: the class is written, but what is written cannot be
read. -/
theorem long_string_unread :
    (∀ r ∈ [Request.constant (.utf8 (letters 65536))], r.isRaw = false) ∧
      (∃ data, (assemble "A" "" 0x21 [.constant (.utf8 (letters 65536))]).bytes = .ok data) ∧
      ∀ c, (assemble "A" "" 0x21 [.constant (.utf8 (letters 65536))]).build ≠ .ok c := by
  have hbytes := bytes_letters (n := 65536) (by decide)
  refine ⟨by simp [Request.isRaw], ⟨_, hbytes⟩, fun c hc => ?_⟩
  obtain ⟨f, hf⟩ := parse_letters (List.replicate 65528 97 ++
    [0, 0x21, 0, 2, 0, 0, 0, 0, 0, 0, 0, 0, 0, 0])
  have hsplit : List.replicate 65536 (97 : UInt8) =
      List.replicate 8 97 ++ List.replicate 65528 97 := List.replicate_add 8 65528 97
  have hzero : Bytes.ofU2 (UInt16.ofNat 65536) = [0, 0] := rfl
  rw [build, hbytes, hsplit, hzero] at hc
  simp only [bind, Except.bind, List.append_assoc] at hc hf
  rw [hf] at hc
  cases hc

end Builder

end Jvm
