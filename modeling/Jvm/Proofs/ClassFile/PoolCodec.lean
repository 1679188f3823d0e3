import Jvm.Constant.Pool
import Jvm.Proofs.ClassFile.ByteCodec
import Jvm.Proofs.ClassFile.ModifiedUtf8

/-!
# Constant pools read and write alike

An entry that was read is written as the bytes it was read from, and an entry that was written is
read as itself, except that a string remembers the bytes that were written for it
(`Constant.reread`). For a whole pool both directions rest on `Spaced`: after slot 0 a slot is empty
exactly when a wide entry stands before it. The reader makes such slots, and they are the ones that
the writer accepts.
-/

namespace Jvm

/-! ### Tags -/

theorem ConstantTag.ofCode?_code (t : ConstantTag) : ofCode? t.code = some t := by
  cases t <;> rfl

theorem ConstantTag.code_of_ofCode? {b : UInt8} {t : ConstantTag} (h : ofCode? b = some t) :
    t.code = b := by
  have hcode := List.find?_some h
  simpa using hcode

namespace Constant

/-! ### Entries that were read -/

theorem readPair_exact : Exact readPair fun p => Bytes.ofU2 p.1 ++ Bytes.ofU2 p.2 := by
  intro s p rest h
  obtain ⟨i, mid, h1, h⟩ := Reader.bind_eq_some h
  obtain ⟨j, mid', h2, h⟩ := Reader.bind_eq_some h
  cases h
  rw [Reader.u2_exact s i mid h1, Reader.u2_exact mid j rest h2, List.append_assoc]

theorem utf8Bytes_decode (bytes : Bytes) :
    utf8Bytes (Text.ModifiedUtf8.decode bytes) (some bytes) = bytes := by
  simp [utf8Bytes]

theorem readPayload_exact (t : ConstantTag) (s rest : Bytes) (c : Constant)
    (h : readPayload t s = some (c, rest)) : c.tag = t ∧ s = c.payload ++ rest := by
  cases t with
  | utf8 =>
    obtain ⟨n, mid, hn, h⟩ := Reader.bind_eq_some h
    obtain ⟨bytes, mid', hbytes, h⟩ := Reader.bind_eq_some h
    cases h
    obtain ⟨hmid, hlen⟩ := Reader.take_eq_some hbytes
    refine ⟨rfl, ?_⟩
    rw [Reader.u2_exact s n mid hn, hmid, payload, utf8Bytes_decode, hlen, UInt16.ofNat_toNat,
      List.append_assoc]
  | integer | float =>
    obtain ⟨w, mid, hw, h⟩ := Reader.bind_eq_some h
    cases h
    exact ⟨rfl, Reader.u4_exact s w rest hw⟩
  | long | double =>
    obtain ⟨w, mid, hw, h⟩ := Reader.bind_eq_some h
    cases h
    exact ⟨rfl, Reader.u8_exact s w rest hw⟩
  | classRef | string | methodType | module | package =>
    obtain ⟨i, mid, hi, h⟩ := Reader.bind_eq_some h
    cases h
    exact ⟨rfl, Reader.u2_exact s i rest hi⟩
  | fieldref | methodref | interfaceMethodref | nameAndType | dynamic | invokeDynamic =>
    obtain ⟨p, mid, hp, h⟩ := Reader.bind_eq_some h
    cases h
    exact ⟨rfl, readPair_exact s p rest hp⟩
  | methodHandle =>
    obtain ⟨kind, mid, hkind, h⟩ := Reader.bind_eq_some h
    obtain ⟨i, mid', hi, h⟩ := Reader.bind_eq_some h
    cases h
    refine ⟨rfl, ?_⟩
    rw [Reader.u1_exact s kind mid hkind, Reader.u2_exact mid i rest hi]
    rfl

theorem parser_exact : Exact parser encode := by
  intro s c rest h
  obtain ⟨code, mid, hcode, h⟩ := Parser.bind_eq_ok h
  have hhead := Reader.u1_exact s code mid (Parser.ofReader_eq_ok hcode)
  cases ht : ConstantTag.ofCode? code with
  | none =>
    simp only [ht] at h
    cases h
  | some t =>
    simp only [ht] at h
    obtain ⟨htag, hmid⟩ := readPayload_exact t mid rest c (Parser.ofReader_eq_ok h)
    rw [hhead, hmid, encode, htag, ConstantTag.code_of_ofCode? ht]
    rfl

/-! ### Entries that were written -/

/-- The entry as it is read back: a string keeps the bytes that were written for it. -/
def reread : Constant → Constant
  | utf8 value raw => utf8 value (some (utf8Bytes value raw))
  | c => c

/-- Whether the length of a string fits into the two bytes that are there for it. -/
def Fits : Constant → Prop
  | utf8 value raw => (utf8Bytes value raw).length ≤ 65535
  | _ => True

@[simp] theorem tag_reread (c : Constant) : c.reread.tag = c.tag := by
  cases c <;> rfl

@[simp] theorem isWide_reread (c : Constant) : c.reread.isWide = c.isWide := by
  cases c <;> rfl

/-- The bytes that are written for a string are read as its value, whatever it was read from. -/
theorem decode_utf8Bytes (value : String) (raw : Option Bytes) :
    Text.ModifiedUtf8.decode (utf8Bytes value raw) = value := by
  cases raw with
  | none => exact Text.ModifiedUtf8.decode_encode value
  | some bytes =>
    simp only [utf8Bytes]
    split
    · assumption
    · exact Text.ModifiedUtf8.decode_encode value

/-- The encoding of a string reads back as the string and has neither a zero byte nor a byte from
0xF0 on. So what is written for a string entry is always read as its value, and it is what the
entry was read from whenever that still reads as the value. -/
theorem utf8Bytes_reads_back (value : String) (raw : Option Bytes) :
    Text.ModifiedUtf8.decode (Text.ModifiedUtf8.encode value) = value ∧
    (∀ b ∈ Text.ModifiedUtf8.encode value, b ≠ 0 ∧ b < 0xF0) ∧
    Text.ModifiedUtf8.decode (utf8Bytes value raw) = value ∧
    (Text.ModifiedUtf8.decode (raw.getD []) = value → utf8Bytes value raw = raw.getD []) := by
  refine ⟨Text.ModifiedUtf8.decode_encode value, Text.ModifiedUtf8.encode_range value,
    decode_utf8Bytes value raw, fun hraw => ?_⟩
  cases raw with
  | none =>
    -- Without bytes to keep, only the empty string reads as no bytes, and it is encoded as none.
    obtain rfl : "" = value := hraw
    rfl
  | some bytes => exact if_pos hraw

/-- A lone surrogate is kept, and no longer once the value is another one. -/
theorem utf8Bytes_reads_back_surrogate :
    utf8Bytes "\uFFFD" (some [0xED, 0xA0, 0x80]) = [0xED, 0xA0, 0x80] ∧
    Text.ModifiedUtf8.encode "\uFFFD" ≠ [0xED, 0xA0, 0x80] ∧
    Text.ModifiedUtf8.decode (utf8Bytes "\u0000😀" (some [0xED, 0xA0, 0x80])) = "\u0000😀" := by
  obtain ⟨-, -, -, hkept⟩ := utf8Bytes_reads_back "\uFFFD" (some [0xED, 0xA0, 0x80])
  obtain ⟨-, -, hstale, -⟩ := utf8Bytes_reads_back "\u0000😀" (some [0xED, 0xA0, 0x80])
  exact ⟨hkept (by decide), by decide, hstale⟩

theorem readPair_reads (i j : UInt16) : Reads readPair (Bytes.ofU2 i ++ Bytes.ofU2 j) (i, j) :=
  (Reader.u2_reads i).bind ((Reader.u2_reads j).answer (Reads.of_pure _))

theorem readPayload_reads (c : Constant) (hc : c.Fits) :
    Reads (readPayload c.tag) c.payload c.reread := by
  cases c with
  | utf8 value raw =>
    refine (Reader.u2_reads _).bind ?_
    rw [Bytes.toNat_count hc]
    refine (Reader.take_reads _).answer ?_
    rw [decode_utf8Bytes]
    exact Reads.of_pure _
  | integer v => exact (Reader.u4_reads _).answer (Reads.of_pure _)
  | float bits => exact (Reader.u4_reads _).answer (Reads.of_pure _)
  | long v => exact (Reader.u8_reads _).answer (Reads.of_pure _)
  | double bits => exact (Reader.u8_reads _).answer (Reads.of_pure _)
  | classRef i | string i | methodType i | module i | package i =>
    exact (Reader.u2_reads i).answer (Reads.of_pure _)
  | fieldref i j | methodref i j | interfaceMethodref i j | nameAndType i j | dynamic i j
  | invokeDynamic i j => exact (readPair_reads i j).answer (Reads.of_pure _)
  | methodHandle kind i =>
    exact (Reader.u1_reads kind).bind ((Reader.u2_reads i).answer (Reads.of_pure _))

theorem parser_reads (c : Constant) (hc : c.Fits) : Reads parser c.encode c.reread := by
  refine (Parser.reads_reading "constant tag" (Reader.u1_reads c.tag.code)).bind ?_
  rw [ConstantTag.ofCode?_code]
  exact Parser.reads_reading c.tag.name (readPayload_reads c hc)

end Constant

namespace ConstantPool

/-! ### The gaps after wide entries -/

/-- Slots after slot 0: none is empty but the one after a wide entry, which may be missing at the
very end. -/
inductive Spaced : List (Option Constant) → Prop
  | nil : Spaced []
  | narrow {c : Constant} {rest : List (Option Constant)} (hc : c.isWide = false)
      (hrest : Spaced rest) : Spaced (some c :: rest)
  | wide {c : Constant} {rest : List (Option Constant)} (hc : c.isWide = true)
      (hrest : Spaced rest) : Spaced (some c :: none :: rest)
  | last {c : Constant} (hc : c.isWide = true) : Spaced [some c]

def present (slots : List (Option Constant)) : List Constant := slots.filterMap id

theorem entriesOnto_spaced {slots : List (Option Constant)} (h : Spaced slots) (i : Nat)
    (acc : List Constant) : entriesOnto i slots acc = .ok (acc.reverse ++ present slots) := by
  induction h generalizing i acc with
  | nil => simp [entriesOnto, present]
  | narrow hc hrest ih =>
    unfold entriesOnto
    rw [if_neg (by simp [hc]), ih]
    simp [present]
  | wide hc hrest ih =>
    rw [entriesOnto, if_pos hc, ih]
    simp [present]
  | last hc =>
    rw [entriesOnto, if_pos hc]
    simp [present]

theorem slotsOnto_exact (n i : Nat) (acc out : List (Option Constant)) (s rest : Bytes)
    (h : slotsOnto n i acc s = .ok (out, rest)) :
    ∃ new, out = acc.reverse ++ new ∧ new.length = n ∧ Spaced new ∧
      s = (present new).flatMap Constant.encode ++ rest := by
  -- A wide entry uses up two slots at once, so the induction is on every smaller count.
  induction n using Nat.strongRecOn generalizing i acc s with
  | ind n ih =>
    cases n with
    | zero =>
      cases h
      exact ⟨[], by simp, rfl, .nil, rfl⟩
    | succ n =>
      unfold slotsOnto at h
      split at h
      · cases h
      · rename_i c mid hentry
        have hs := Constant.parser_exact s c mid hentry
        split at h
        · rename_i hwide
          split at h
          · cases h
            exact ⟨[some c], by simp, rfl, .last hwide, by simpa [present] using hs⟩
          · rename_i k
            obtain ⟨new, hout, hlen, hspaced, hmid⟩ :=
              ih k (by omega) (i + 2) (none :: some c :: acc) mid h
            refine ⟨some c :: none :: new, by simp [hout], by simp [hlen], .wide hwide hspaced, ?_⟩
            simp [present, hs, hmid]
        · rename_i hnarrow
          obtain ⟨new, hout, hlen, hspaced, hmid⟩ :=
            ih n (by omega) (i + 1) (some c :: acc) mid h
          refine ⟨some c :: new, by simp [hout], by simp [hlen],
            .narrow (by simpa using hnarrow) hspaced, ?_⟩
          simp [present, hs, hmid]

/-- A pool that was read is written as the bytes it was read from. -/
theorem parser_encode {s rest : Bytes} {p : ConstantPool} (h : parser s = .ok (p, rest)) :
    ∃ bytes, p.encode = .ok bytes ∧ s = bytes ++ rest := by
  obtain ⟨count, mid, hcount, h⟩ := Parser.bind_eq_ok h
  have hhead := Reader.u2_exact s count mid (Parser.ofReader_eq_ok hcount)
  split at h
  · cases h
  · rename_i hzero
    obtain ⟨slots, mid', hslots, h⟩ := Parser.bind_eq_ok h
    cases h
    obtain ⟨new, hnew, hlen, hspaced, hmid⟩ := slotsOnto_exact _ _ _ _ _ _ hslots
    have hnew' : slots = new := by simpa using hnew
    subst hnew'
    have hpos : count.toNat ≠ 0 := fun h0 => hzero (UInt16.toNat_inj.mp h0)
    have hwidth : UInt16.ofNat (ConstantPool.count ⟨(none :: slots).toArray⟩) = count := by
      rw [ConstantPool.count, List.size_toArray, List.length_cons, hlen,
        Nat.sub_add_cancel (by omega), UInt16.ofNat_toNat]
    refine ⟨Bytes.ofU2 count ++ (present slots).flatMap Constant.encode, ?_, ?_⟩
    · simp only [encode, entriesOnto_spaced hspaced, hwidth]
      rfl
    · rw [hhead, hmid, List.append_assoc]

/-! ### Pools that were written -/

def reread (p : ConstantPool) : ConstantPool := ⟨p.slots.map (Option.map Constant.reread)⟩

def wideAt (p : ConstantPool) (i : Nat) : Bool := p.slots[i]?.join.any Constant.isWide

/-- The form of a pool that a class file can hold: up to 65535 slots, of which slot 0 is empty and
every other one is empty exactly when a wide entry stands before it, and strings of a length that
can be written. -/
structure WellFormed (p : ConstantPool) : Prop where
  count_le : p.count ≤ 65535
  zero : p.slots[0]? = some none
  gap : ∀ i < p.count, i ≠ 0 → (p.slots[i]? = some none ↔ p.wideAt (i - 1) = true)
  fits : ∀ c, some c ∈ p.slots → c.Fits

theorem spaced_of_gaps (before : Option Constant) (slots : List (Option Constant))
    (h : ∀ i < slots.length,
      (slots[i]? = some none ↔ (before :: slots)[i]?.join.any Constant.isWide = true)) :
    (before.any Constant.isWide = false → Spaced slots) ∧
      (before.any Constant.isWide = true →
        slots = [] ∨ ∃ rest, slots = none :: rest ∧ Spaced rest) := by
  -- What holds of the slots depends on the one before them, so both cases go through together.
  induction slots generalizing before with
  | nil => exact ⟨fun _ => .nil, fun _ => .inl rfl⟩
  | cons x rest ih =>
    have hx : x = none ↔ before.any Constant.isWide = true := by
      simpa using h 0 (by simp)
    have hrest := ih x fun i hi => by simpa using h (i + 1) (by simpa using hi)
    refine ⟨fun hnarrow => ?_, fun hwide => ?_⟩
    · cases x with
      | none =>
        rw [hx.mp rfl] at hnarrow
        cases hnarrow
      | some c =>
        cases hw : c.isWide with
        | false => exact .narrow hw (hrest.1 hw)
        | true =>
          rcases hrest.2 hw with hnil | ⟨r, hr, hspaced⟩
          · subst hnil
            exact .last hw
          · subst hr
            exact .wide hw hspaced
    · have hnone := hx.mpr hwide
      subst hnone
      exact .inr ⟨rest, rfl, hrest.1 rfl⟩

theorem slots_eq_of_gaps {p : ConstantPool} (hzero : p.slots[0]? = some none)
    (hgap : ∀ i < p.count, i ≠ 0 → (p.slots[i]? = some none ↔ p.wideAt (i - 1) = true)) :
    ∃ slots, p.slots.toList = none :: slots ∧ Spaced slots := by
  simp only [count, wideAt, ← Array.getElem?_toList, ← Array.length_toList] at hzero hgap
  cases hslots : p.slots.toList with
  | nil =>
    rw [hslots] at hzero
    cases hzero
  | cons x slots =>
    rw [hslots] at hzero hgap
    have hx : x = none := by simpa using hzero
    subst hx
    have hspaced := spaced_of_gaps none slots fun i hi => by
      simpa using hgap (i + 1) (by simpa using hi) (by omega)
    exact ⟨slots, rfl, hspaced.1 rfl⟩

theorem WellFormed.slots_eq {p : ConstantPool} (h : p.WellFormed) :
    ∃ slots, p.slots.toList = none :: slots ∧ Spaced slots :=
  slots_eq_of_gaps h.zero h.gap

theorem slotsOnto_reads {slots : List (Option Constant)} (h : Spaced slots)
    (hfits : ∀ c, some c ∈ slots → c.Fits) (i : Nat) (acc : List (Option Constant)) :
    Reads (slotsOnto slots.length i acc) ((present slots).flatMap Constant.encode)
      (acc.reverse ++ slots.map (Option.map Constant.reread)) := by
  induction h generalizing i acc with
  | nil =>
    intro rest
    show Except.ok (acc.reverse, [] ++ rest) = Except.ok (acc.reverse ++ [], rest)
    simp
  | @narrow c slots hc hslots ih =>
    intro rest
    have hentry := Parser.eq_ok_of_reads (Constant.parser_reads c (hfits c (by simp)))
      ((present slots).flatMap Constant.encode ++ rest)
    have hrest := ih (fun d hd => hfits d (by simp [hd])) (i + 1) (some c.reread :: acc) rest
    show slotsOnto (slots.length + 1) i acc
      ((c.encode ++ (present slots).flatMap Constant.encode) ++ rest) = _
    rw [List.append_assoc, slotsOnto, hentry]
    simpa [hc] using hrest
  | @wide c slots hc hslots ih =>
    intro rest
    have hentry := Parser.eq_ok_of_reads (Constant.parser_reads c (hfits c (by simp)))
      ((present slots).flatMap Constant.encode ++ rest)
    have hrest := ih (fun d hd => hfits d (by simp [hd])) (i + 2) (none :: some c.reread :: acc)
      rest
    show slotsOnto (slots.length + 1 + 1) i acc
      ((c.encode ++ (present slots).flatMap Constant.encode) ++ rest) = _
    rw [List.append_assoc, slotsOnto, hentry]
    simpa [hc] using hrest
  | @last c hc =>
    intro rest
    have hentry := Parser.eq_ok_of_reads (Constant.parser_reads c (hfits c (by simp))) rest
    show slotsOnto (0 + 1) i acc ((c.encode ++ []) ++ rest) = _
    rw [List.append_nil, slotsOnto, hentry]
    simp [hc]
    rfl

/-- A pool of the right form is written, and what was written is read back. -/
theorem WellFormed.encode_reads {p : ConstantPool} (h : p.WellFormed) :
    ∃ bytes, p.encode = .ok bytes ∧ Reads parser bytes p.reread := by
  obtain ⟨slots, hslots, hspaced⟩ := h.slots_eq
  have hcount : p.count = slots.length + 1 := by
    rw [count, ← Array.length_toList, hslots, List.length_cons]
  have hwidth : (UInt16.ofNat p.count).toNat = slots.length + 1 := by
    rw [Bytes.toNat_count h.count_le, hcount]
  have hzero : UInt16.ofNat p.count ≠ 0 := by
    intro h0
    rw [h0] at hwidth
    cases hwidth
  have hfits : ∀ c, some c ∈ slots → c.Fits := by
    intro c hc
    apply h.fits c
    rw [← Array.mem_toList_iff, hslots]
    exact List.mem_cons_of_mem _ hc
  have hread : p.reread = ⟨(none :: slots.map (Option.map Constant.reread)).toArray⟩ := by
    rw [reread]
    congr 1
    apply Array.ext'
    simp [hslots]
  refine ⟨Bytes.ofU2 (UInt16.ofNat p.count) ++ (present slots).flatMap Constant.encode, ?_, ?_⟩
  · simp only [encode, hslots, entriesOnto_spaced hspaced]
    rfl
  · refine (Parser.reads_reading "constant pool count" (Reader.u2_reads _)).bind ?_
    rw [if_neg hzero, hwidth, hread]
    exact (slotsOnto_reads hspaced hfits 1 []).answer (Reads.of_pure _)

/-! ### Look-ups in a pool that was read back -/

theorem slot?_reread (p : ConstantPool) (index : UInt16) :
    p.reread.slot? index = (p.slot? index).map Constant.reread := by
  simp only [slot?, reread, Array.getElem?_map]
  cases p.slots[index.toNat]? with
  | none => rfl
  | some slot => rfl

theorem entry_reread (p : ConstantPool) (index : UInt16) :
    p.reread.entry index = (p.entry index).map Constant.reread := by
  have hcount : p.reread.count = p.count := by simp [count, reread]
  simp only [entry, hcount, slot?_reread]
  split
  · rfl
  · cases p.slot? index with
    | none => rfl
    | some c => rfl

theorem entryAs_reread {α : Type} (p : ConstantPool) (index : UInt16) (want : ConstantTag)
    (part : Constant → Option α) (hpart : ∀ c, part c.reread = part c) :
    p.reread.entryAs index want part = p.entryAs index want part := by
  simp only [entryAs, entry_reread]
  cases p.entry index with
  | error f => rfl
  | ok c =>
    simp only [Except.map, bind, Except.bind, hpart, Constant.tag_reread]

theorem utf8_reread (p : ConstantPool) (index : UInt16) : p.reread.utf8 index = p.utf8 index :=
  p.entryAs_reread index .utf8 _ fun c => by cases c <;> rfl

theorem className_reread (p : ConstantPool) (index : UInt16) :
    p.reread.className index = p.className index := by
  simp only [className, utf8_reread]
  rw [p.entryAs_reread index .classRef _ fun c => by cases c <;> rfl]

end ConstantPool

end Jvm
