import Jvm.Proofs.Builder.Requests
import Jvm.Proofs.ClassFile.Rereading

/-!
# The pool of an assembled class

The pool of a builder is sound at every time: its gaps are those after wide entries, entries refer
to the front only, and a constant whose key gives it away has one entry. An index that was returned
keeps its entry, and the class can always be written.
-/

namespace Jvm

/-- The indices in an entry, each with the tag of the entry that it must lead to. -/
def Constant.needs : Constant → List (UInt16 × ConstantTag)
  | classRef i | string i => [(i, .utf8)]
  | nameAndType i j => [(i, .utf8), (j, .utf8)]
  | fieldref i j | methodref i j | interfaceMethodref i j => [(i, .classRef), (j, .nameAndType)]
  | _ => []

@[simp] theorem Constant.tag_bare (c : Constant) : c.bare.tag = c.tag := by
  cases c <;> rfl

/-- A tag of entries that do not repeat in the pool of a builder. -/
def ConstantTag.isPlain : ConstantTag → Bool
  | utf8 | classRef | string | integer | float | long | double => true
  | _ => false

structure ConstantPool.Sound (p : ConstantPool) : Prop where
  zero : p.slots[0]? = some none
  gap : ∀ i < p.count, i ≠ 0 → (p.slots[i]? = some none ↔ p.wideAt (i - 1) = true)
  /-- What an entry refers to stands before it and has the right tag. -/
  needs : ∀ i c, p.entry i = .ok c → ∀ n ∈ c.needs, n.1 < i ∧ ∃ d, p.entry n.1 = .ok d ∧ d.tag = n.2
  /-- No two slots hold equal entries, whatever bytes a string was read from. -/
  distinct : ∀ i j c d, p.entry i = .ok c → p.entry j = .ok d → c.tag.isPlain = true →
    c.bare = d.bare → i = j

theorem ConstantPool.slot?_of_entry {p : ConstantPool} {i : UInt16} {c : Constant}
    (h : p.entry i = .ok c) : p.slot? i = some c := by
  unfold entry at h
  split at h
  · cases h
  · split at h
    · rename_i hslot
      cases h
      exact hslot
    · cases h

theorem ConstantPool.Gapped.entry {p : ConstantPool} (h : p.Gapped) {i : UInt16} {c : Constant}
    (hi : p.slot? i = some c) : p.entry i = .ok c := by
  have hlt := lt_count_of_slot? hi
  have hne : i ≠ 0 := by
    rintro rfl
    rw [slot?, show (0 : UInt16).toNat = 0 from rfl, h.zero] at hi
    cases hi
  rw [ConstantPool.entry, if_neg (by rintro (h0 | hge) <;> [exact hne h0; omega]), hi]

/-- A pool whose gaps are in their places is written, however many slots it has. -/
theorem ConstantPool.Gapped.encode_eq {p : ConstantPool} (h : p.Gapped) :
    ∃ bytes, p.encode = .ok bytes := by
  obtain ⟨slots, hslots, hspaced⟩ := slots_eq_of_gaps h.zero h.gap
  refine ⟨Bytes.ofU2 (UInt16.ofNat p.count) ++ (present slots).flatMap Constant.encode, ?_⟩
  simp only [encode, hslots, entriesOnto_spaced hspaced]
  rfl

namespace Builder

variable {b : Builder} {asked : List Wanted} {w v : Wanted}

/-! ### Entries of constants that were asked for -/

theorem Wanted.needs_entry (w : Wanted) (index : Wanted → UInt16) :
    (w.entry index).needs = w.parts.map fun v => (index v, v.tag) := by
  cases w <;> rfl

theorem Wanted.isPlain_tag (w : Wanted) : w.tag.isPlain = w.isPlain := by
  cases w <;> rfl

theorem indexOf_congr (h : w.key = v.key) : b.indexOf w = b.indexOf v := by
  rw [indexOf, h, indexOf]

namespace Recorded

/-- The entry under the key of a constant belongs to a constant that was asked for. -/
theorem holds (h : Recorded asked b) (hw : b.Knows w) :
    ∃ u ∈ asked, u.key = w.key ∧ b.Holds u (b.indexOf w) := by
  obtain ⟨u, hu, hholds⟩ := h.first w hw
  have hkey : u.key = w.key := by simpa using List.find?_some hu
  exact ⟨u, List.mem_of_find?_eq_some hu, hkey, hholds⟩

theorem holds_plain (h : Recorded asked b) (hw : b.Knows w) (hplain : w.isPlain = true) :
    b.Holds w (b.indexOf w) := by
  obtain ⟨u, -, hkey, hholds⟩ := h.holds hw
  obtain rfl := Wanted.eq_of_key hplain hkey.symm
  exact hholds

theorem needs (h : Recorded asked b) (hgapped : b.pool.Gapped) {i : UInt16} {c : Constant}
    (hc : b.pool.slot? i = some c) :
    ∀ n ∈ c.needs, n.1 < i ∧ ∃ d, b.pool.entry n.1 = .ok d ∧ d.tag = n.2 := by
  obtain ⟨w, hw, rfl⟩ := h.owned i c hc
  obtain ⟨u, -, -, hu⟩ := h.holds hw
  obtain rfl : u.entry b.indexOf = c := Option.some.inj (hu.slot.symm.trans hc)
  rw [Wanted.needs_entry]
  intro n hn
  obtain ⟨v, hv, rfl⟩ := List.mem_map.mp hn
  obtain ⟨hknown, hlt⟩ := hu.parts v hv
  obtain ⟨x, -, hkey, hx⟩ := h.holds hknown
  refine ⟨hlt, x.entry b.indexOf, hgapped.entry hx.slot, ?_⟩
  rw [Wanted.tag_entry, Wanted.tag_eq_of_key hkey]

theorem utf8_inj (h : Recorded asked b) {s t : String} (hs : b.Knows (.utf8 s))
    (ht : b.Knows (.utf8 t)) (heq : b.indexOf (.utf8 s) = b.indexOf (.utf8 t)) : s = t := by
  have hslot := (h.holds_plain hs rfl).slot
  rw [heq, (h.holds_plain ht rfl).slot] at hslot
  exact (Constant.utf8.inj (Option.some.inj hslot)).1.symm

theorem eq_of_entry (h : Recorded asked b) {i j : UInt16} (hw : b.Holds w i) (hv : b.Holds v j)
    (hplain : w.isPlain = true)
    (heq : (w.entry b.indexOf).bare = (v.entry b.indexOf).bare) : w = v := by
  have htag : w.tag = v.tag := by
    simpa using congrArg Constant.tag heq
  cases w with
  | class_ n =>
    cases v <;> cases htag
    exact congrArg Wanted.class_ (h.utf8_inj (hw.parts _ (List.mem_singleton_self _)).1
      (hv.parts _ (List.mem_singleton_self _)).1 (Constant.classRef.inj heq))
  | string s =>
    cases v <;> cases htag
    exact congrArg Wanted.string (h.utf8_inj (hw.parts _ (List.mem_singleton_self _)).1
      (hv.parts _ (List.mem_singleton_self _)).1 (Constant.string.inj heq))
  | utf8 | integer | float | long | double =>
    cases v <;> cases htag
    cases heq
    rfl
  | nameAndType | fieldref | methodref | interfaceMethodref => cases hplain

theorem distinct (h : Recorded asked b) {i j : UInt16} {c d : Constant}
    (hc : b.pool.slot? i = some c) (hd : b.pool.slot? j = some d) (hplain : c.tag.isPlain = true)
    (heq : c.bare = d.bare) : i = j := by
  obtain ⟨w, hw, rfl⟩ := h.owned i c hc
  obtain ⟨v, hv, rfl⟩ := h.owned j d hd
  obtain ⟨x, -, hxw, hx⟩ := h.holds hw
  obtain ⟨y, -, hyv, hy⟩ := h.holds hv
  obtain rfl : x.entry b.indexOf = c := Option.some.inj (hx.slot.symm.trans hc)
  obtain rfl : y.entry b.indexOf = d := Option.some.inj (hy.slot.symm.trans hd)
  rw [Wanted.tag_entry, Wanted.isPlain_tag] at hplain
  obtain rfl := h.eq_of_entry hx hy hplain heq
  exact indexOf_congr (hxw.symm.trans hyv)

theorem sound (h : Recorded asked b) (hgapped : b.pool.Gapped) : b.pool.Sound where
  zero := hgapped.zero
  gap := hgapped.gap
  needs _ _ hc := h.needs hgapped (ConstantPool.slot?_of_entry hc)
  distinct _ _ _ _ hc hd := h.distinct (ConstantPool.slot?_of_entry hc)
    (ConstantPool.slot?_of_entry hd)

end Recorded

/-! ### Returned indices -/

variable {name superName : String} {flags : UInt16}

theorem knows_ask (w : Wanted) (b : Builder) : (w.ask b).2.Knows w := by
  rw [ask_eq]
  exact knows_steps w b

/-- The index that was returned for a constant is the one that is kept for it ever after. -/
theorem returned_eq (before : List Request) (w : Wanted) (after : List Request) :
    (w.ask (assemble name superName flags before)).1 =
      (assemble name superName flags (before ++ .constant w :: after)).indexOf w := by
  rw [assemble_append, List.foldl_cons, perform,
    (extends_foldl_perform _ after).indexOf_eq (knows_ask w _), ask_eq]

/-- The index that is returned for `w` after the requests `before` names an entry with the tag of
`w`, and it goes on to name the same entry while the requests `after` are made. -/
def Settled (name superName : String) (flags : UInt16) (before : List Request) (w : Wanted)
    (after : List Request) : Prop :=
  ∃ c, c.tag = w.tag ∧ ∀ later, later <+: after →
    (assemble name superName flags (before ++ .constant w :: later)).pool.entry
      (w.ask (assemble name superName flags before)).1 = .ok c

theorem settled {before : List Request} {w : Wanted} {after : List Request}
    (hcount : (assemble name superName flags (before ++ .constant w :: after)).pool.count ≤ 65535) :
    Settled name superName flags before w after := by
  let first := assemble name superName flags (before ++ [.constant w])
  have hextends : ∀ later,
      first.Extends (assemble name superName flags (before ++ .constant w :: later)) := by
    intro later
    rw [List.append_cons, assemble_append]
    exact extends_foldl_perform first later
  have hrecorded := assemble_recorded (Nat.le_trans (hextends after).size_le hcount)
  have hknown : first.Knows w := by
    rw [show first = ((w.ask (assemble name superName flags before)).2) by
      rw [show first = _ from assemble_append before _]
      rfl]
    exact knows_ask w _
  obtain ⟨u, -, hkey, hu⟩ := hrecorded.holds hknown
  refine ⟨u.entry first.indexOf, ?_, fun later _ => ?_⟩
  · rw [Wanted.tag_entry, Wanted.tag_eq_of_key hkey]
  · rw [returned_eq before w []]
    exact (assemble_gapped _).entry ((hextends later).slot?_eq hu.slot)

theorem bytes_eq (requests : List Request) :
    ∃ data, (assemble name superName flags requests).bytes = .ok data := by
  have hgapped : (assemble name superName flags requests).classFile.pool.Gapped :=
    assemble_gapped requests
  obtain ⟨poolBytes, hpool⟩ := hgapped.encode_eq
  exact ⟨_, by rw [bytes, ClassFile.encode, hpool]; rfl⟩

/-- As long as a class needs no more than 65535 slots, its pool is sound, every index that was
returned for a constant goes on to name one entry of the right kind, and the class can be
written. -/
theorem assemble_sound (name superName : String) (flags : UInt16) (requests : List Request)
    (hcount : (assemble name superName flags requests).pool.count ≤ 65535) :
    (assemble name superName flags requests).pool.Sound ∧
      (∀ before w after, requests = before ++ .constant w :: after →
        Settled name superName flags before w after) ∧
      ∃ data, (assemble name superName flags requests).bytes = .ok data := by
  refine ⟨(assemble_recorded hcount).sound (assemble_gapped requests), ?_, bytes_eq requests⟩
  rintro before w after rfl
  exact settled hcount

/-- Requests for constants of every width, one of them made twice, between those for members. -/
def sample : List Request :=
  [.constant (.long 7), .implements ["I", "I"], .constant (.methodref ⟨"A", "m", "()V"⟩),
    .field 1 "m" "J", .constant (.long 7), .method 1 "m" "()V" 0 1 (some [0xB1]),
    .constant (.interfaceMethodref ⟨"I", "m", "()V"⟩), .classAttribute "SourceFile" [0, 1]]

theorem assemble_sound_sample :
    (assemble "A" "" 0x21 sample).pool.count ≤ 65535 ∧
      (assemble "A" "" 0x21 sample).pool.Sound ∧
      (∀ before w after, sample = before ++ .constant w :: after →
        Settled "A" "" 0x21 before w after) ∧
      ∃ data, (assemble "A" "" 0x21 sample).bytes = .ok data :=
  have hcount : (assemble "A" "" 0x21 sample).pool.count ≤ 65535 := by decide +kernel
  ⟨hcount, assemble_sound "A" "" 0x21 sample hcount⟩

end Builder

end Jvm
