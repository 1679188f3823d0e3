import Jvm.Proofs.ClassFile.ByteCodec
import Jvm.Proofs.Instruction.Sweep

/-!
# The bytes of an instruction

An instruction is read from its opcode byte and the bytes of its operand, and from nothing else. Its
numbers written out again in two's complement are these bytes, except for the last byte of an
interface call, which is not recorded.
-/

namespace Jvm

/-! ### Numbers in two's complement -/

/-- An integer in `n` bytes, high byte first, modulo `256 ^ n`. -/
def Bytes.ofInt : Nat → Int → Bytes
  | 0, _ => []
  | n + 1, v => Bytes.ofInt n (v / 256) ++ [UInt8.ofInt v]

def Bytes.span : Nat → Int
  | 0 => 1
  | n + 1 => 256 * Bytes.span n

theorem UInt8.ofInt_eq {v : Int} {a : UInt8} (h : v % 256 = a.toNat) : UInt8.ofInt v = a := by
  have hv : v % 2 ^ 8 = a.toNat := h
  rw [UInt8.ofInt, hv, Int.toNat_natCast, UInt8.ofNat_toNat]

theorem Bytes.ofInt_one {v : Int} {a : UInt8} (h : v % 256 = a.toNat) : ofInt 1 v = [a] := by
  rw [ofInt, ofInt, UInt8.ofInt_eq h, List.nil_append]

theorem Bytes.ofInt_two {v : Int} {w : UInt16} (h : v % 65536 = w.toNat) : ofInt 2 v = ofU2 w := by
  have hw := w.toNat_lt
  have hhigh : (v / 256 : Int) % 256 = (w >>> 8).toUInt8.toNat := by
    rw [UInt16.toNat_toUInt8, UInt16.toNat_shiftRight, Nat.shiftRight_eq_div_pow,
      show (8 : UInt16).toNat % 16 = 8 from rfl]
    omega
  have hlow : v % 256 = w.toUInt8.toNat := by
    rw [UInt16.toNat_toUInt8]
    omega
  rw [ofInt, ofInt_one hhigh, UInt8.ofInt_eq hlow]
  rfl

theorem UInt8.toInt_toInt8_emod (a : UInt8) : a.toInt8.toInt % 256 = a.toNat := by
  have ha := a.toNat_lt
  have hmod := Int.bmod_emod (x := a.toNat) (m := 256)
  rw [← Int8.toInt_toBitVec, BitVec.toInt_eq_toNat_bmod]
  change (a.toNat : Int).bmod 256 % 256 = _
  omega

theorem UInt16.toInt_toInt16_emod (w : UInt16) : w.toInt16.toInt % 65536 = w.toNat := by
  have hw := w.toNat_lt
  have hmod := Int.bmod_emod (x := w.toNat) (m := 65536)
  rw [← Int16.toInt_toBitVec, BitVec.toInt_eq_toNat_bmod]
  change (w.toNat : Int).bmod 65536 % 65536 = _
  omega

/-- A number in an operand, with the number of its bytes. -/
inductive OperandField where
  | unsigned (width : Nat) (value : Int)
  | signed (width : Nat) (value : Int)

namespace OperandField

def InRange : OperandField → Prop
  | unsigned width value => 0 ≤ value ∧ value < Bytes.span width
  | signed width value => -Bytes.span width ≤ 2 * value ∧ 2 * value < Bytes.span width

def encode : OperandField → Bytes
  | unsigned width value | signed width value => Bytes.ofInt width value

theorem unsigned_byte (a : UInt8) :
    (unsigned 1 a.toNat).InRange ∧ (unsigned 1 a.toNat).encode = [a] := by
  have ha := a.toNat_lt
  refine ⟨⟨by omega, ?_⟩, Bytes.ofInt_one (by omega)⟩
  show (a.toNat : Int) < 256 * 1
  omega

theorem unsigned_word (w : UInt16) :
    (unsigned 2 w.toNat).InRange ∧ (unsigned 2 w.toNat).encode = Bytes.ofU2 w := by
  have hw := w.toNat_lt
  refine ⟨⟨by omega, ?_⟩, Bytes.ofInt_two (by omega)⟩
  show (w.toNat : Int) < 256 * (256 * 1)
  omega

theorem signed_byte (a : UInt8) :
    (signed 1 a.toInt8.toInt).InRange ∧ (signed 1 a.toInt8.toInt).encode = [a] := by
  have hleast := a.toInt8.le_toInt
  have hmost := a.toInt8.toInt_lt
  refine ⟨?_, Bytes.ofInt_one (UInt8.toInt_toInt8_emod a)⟩
  show -(256 * 1) ≤ 2 * a.toInt8.toInt ∧ 2 * a.toInt8.toInt < 256 * 1
  omega

theorem signed_word (w : UInt16) :
    (signed 2 w.toInt16.toInt).InRange ∧ (signed 2 w.toInt16.toInt).encode = Bytes.ofU2 w := by
  have hleast := w.toInt16.le_toInt
  have hmost := w.toInt16.toInt_lt
  refine ⟨?_, Bytes.ofInt_two (UInt16.toInt_toInt16_emod w)⟩
  show -(256 * (256 * 1)) ≤ 2 * w.toInt16.toInt ∧ 2 * w.toInt16.toInt < 256 * (256 * 1)
  omega

end OperandField

/-! ### Operands -/

/-- The operand that bytes stand for in a layout. -/
inductive Operand.Written : Shape → Operand → Bytes → Prop where
  | none : Written .none .none []
  | slot (a : UInt8) : Written .slot (.slot a) [a]
  | byteImmediate (a : UInt8) : Written .byteImmediate (.immediate a.toInt8.toInt16) [a]
  | shortImmediate (w : UInt16) : Written .shortImmediate (.immediate w.toInt16) (Bytes.ofU2 w)
  | poolByte (a : UInt8) : Written .poolByte (.pool a.toUInt16) [a]
  | pool (w : UInt16) : Written .pool (.pool w) (Bytes.ofU2 w)
  | increment (a b : UInt8) : Written .increment (.increment a b.toInt8) [a, b]
  | branch (w : UInt16) : Written .branch (.branch w.toInt16) (Bytes.ofU2 w)
  | interface (w : UInt16) (count last : UInt8) :
    Written .interface (.interface w count) (Bytes.ofU2 w ++ [count, last])

namespace Operand

variable {shape : Shape} {operand : Operand} {bytes : Bytes}

theorem Written.length (h : Written shape operand bytes) : bytes.length = shape.width := by
  cases h <;> rfl

/-- An operand is read from exactly the bytes that stand for it. -/
theorem front?_eq_some_iff :
    front? shape bytes = some operand ↔
      ∃ own rest, bytes = own ++ rest ∧ Written shape operand own := by
  constructor
  · intro h
    match shape, bytes, h with
    | .none, rest, rfl => exact ⟨[], rest, rfl, .none⟩
    | .slot, a :: rest, rfl => exact ⟨[a], rest, rfl, .slot a⟩
    | .byteImmediate, a :: rest, rfl => exact ⟨[a], rest, rfl, .byteImmediate a⟩
    | .poolByte, a :: rest, rfl => exact ⟨[a], rest, rfl, .poolByte a⟩
    | .increment, a :: b :: rest, rfl => exact ⟨[a, b], rest, rfl, .increment a b⟩
    | .shortImmediate, a :: b :: rest, rfl =>
      exact ⟨_, rest, by rw [Bytes.ofU2_toU2]; rfl, .shortImmediate (Bytes.toU2 a b)⟩
    | .pool, a :: b :: rest, rfl =>
      exact ⟨_, rest, by rw [Bytes.ofU2_toU2]; rfl, .pool (Bytes.toU2 a b)⟩
    | .branch, a :: b :: rest, rfl =>
      exact ⟨_, rest, by rw [Bytes.ofU2_toU2]; rfl, .branch (Bytes.toU2 a b)⟩
    | .interface, a :: b :: count :: last :: rest, rfl =>
      exact ⟨_, rest, by rw [Bytes.ofU2_toU2]; rfl, .interface (Bytes.toU2 a b) count last⟩
  · rintro ⟨own, rest, rfl, h⟩
    cases h with
    | none | slot a | byteImmediate a | poolByte a | increment a b => rfl
    | shortImmediate w | pool w | branch w | interface w count last =>
      simp only [Bytes.ofU2, List.cons_append, List.nil_append, front?, Bytes.toU2_ofU2]

end Operand

/-! ### Instructions -/

theorem Opcode.toByte_of_ofByte? {b : UInt8} {op : Opcode} (h : ofByte? b = some op) :
    op.toByte = b := by
  have hnumber := List.find?_some h
  rw [beq_iff_eq] at hnumber
  rw [toByte, hnumber, UInt8.ofNat_toNat]

/-- The number of operand bytes that are not recorded. -/
def Shape.unrecorded : Shape → Nat
  | interface => 1
  | _ => 0

namespace Instruction

def fields (i : Instruction) : List OperandField :=
  match i.opcode.shape with
  | .none => []
  | .slot | .poolByte => [.unsigned 1 i.index.toNat]
  | .byteImmediate => [.signed 1 i.value.toInt]
  | .shortImmediate => [.signed 2 i.value.toInt]
  | .pool => [.unsigned 2 i.index.toNat]
  | .increment => [.unsigned 1 i.index.toNat, .signed 1 i.value.toInt]
  | .branch => [.signed 2 i.offset]
  | .interface => [.unsigned 2 i.index.toNat, .unsigned 1 i.count.toNat]

def encode (i : Instruction) : Bytes :=
  i.opcode.toByte :: i.fields.flatMap OperandField.encode

variable {i : Instruction} {address : Nat} {bytes : Bytes}

theorem front?_eq_some_iff :
    front? address bytes = some i ↔
      i.address = address ∧ ∃ b own rest, bytes = b :: (own ++ rest) ∧
        Opcode.ofByte? b = some i.opcode ∧ Operand.Written i.opcode.shape i.operand own := by
  constructor
  · intro h
    cases bytes with
    | nil => cases h
    | cons b tail =>
      obtain ⟨opcode, hopcode, h⟩ := Option.bind_eq_some_iff.mp h
      obtain ⟨operand, hoperand, h⟩ := Option.bind_eq_some_iff.mp h
      cases h
      obtain ⟨own, rest, rfl, hwritten⟩ := Operand.front?_eq_some_iff.mp hoperand
      exact ⟨rfl, b, own, rest, rfl, hopcode, hwritten⟩
  · rintro ⟨rfl, b, own, rest, rfl, hopcode, hwritten⟩
    have hoperand := Operand.front?_eq_some_iff.mpr ⟨own, rest, rfl, hwritten⟩
    rw [front?, hopcode]
    show (Operand.front? i.opcode.shape (own ++ rest) >>= _) = _
    rw [hoperand]
    rfl

theorem fields_of_written {own : Bytes} (h : Operand.Written i.opcode.shape i.operand own) :
    (∀ f ∈ i.fields, f.InRange) ∧ ∃ unrecorded : Bytes,
      unrecorded.length = i.opcode.shape.unrecorded ∧
        own = i.fields.flatMap OperandField.encode ++ unrecorded := by
  obtain ⟨address, opcode, operand⟩ := i
  simp only [fields, index, value, offset, count] at h ⊢
  generalize opcode.shape = shape at h ⊢
  -- In each layout the numbers are those that the bytes were read as.
  cases h with
  | none => exact ⟨List.forall_mem_nil _, [], rfl, rfl⟩
  | slot a | poolByte a =>
    obtain ⟨hrange, hbytes⟩ := OperandField.unsigned_byte a
    simp only [UInt8.toNat_toUInt16]
    exact ⟨List.forall_mem_singleton.mpr hrange, [], rfl, by simp [hbytes]⟩
  | byteImmediate a =>
    obtain ⟨hrange, hbytes⟩ := OperandField.signed_byte a
    simp only [Int16.toInt_toInt32, Int8.toInt_toInt16]
    exact ⟨List.forall_mem_singleton.mpr hrange, [], rfl, by simp [hbytes]⟩
  | shortImmediate w =>
    obtain ⟨hrange, hbytes⟩ := OperandField.signed_word w
    simp only [Int16.toInt_toInt32]
    exact ⟨List.forall_mem_singleton.mpr hrange, [], rfl, by simp [hbytes]⟩
  | pool w =>
    obtain ⟨hrange, hbytes⟩ := OperandField.unsigned_word w
    exact ⟨List.forall_mem_singleton.mpr hrange, [], rfl, by simp [hbytes]⟩
  | branch w =>
    obtain ⟨hrange, hbytes⟩ := OperandField.signed_word w
    exact ⟨List.forall_mem_singleton.mpr hrange, [], rfl, by simp [hbytes]⟩
  | increment a b =>
    obtain ⟨hslot, hslotBytes⟩ := OperandField.unsigned_byte a
    obtain ⟨hamount, hamountBytes⟩ := OperandField.signed_byte b
    simp only [UInt8.toNat_toUInt16, Int8.toInt_toInt32]
    exact ⟨List.forall_mem_cons.mpr ⟨hslot, List.forall_mem_singleton.mpr hamount⟩, [], rfl,
      by simp [hslotBytes, hamountBytes]⟩
  | interface w count last =>
    obtain ⟨hindex, hindexBytes⟩ := OperandField.unsigned_word w
    obtain ⟨hcount, hcountBytes⟩ := OperandField.unsigned_byte count
    exact ⟨List.forall_mem_cons.mpr ⟨hindex, List.forall_mem_singleton.mpr hcount⟩, [last], rfl,
      by simp [hindexBytes, hcountBytes]⟩

/-! ### Decoding at an address -/

theorem decode?_eq_some_iff {code : Bytes} :
    decode? code i.address = some i ↔ ∃ b own rest, code.drop i.address = b :: (own ++ rest) ∧
      Opcode.ofByte? b = some i.opcode ∧ Operand.Written i.opcode.shape i.operand own := by
  rw [decode?_ofNat, front?_eq_some_iff]
  exact and_iff_right rfl

theorem address_of_decode? {code : Bytes} {pc : Int} (h : decode? code pc = some i) :
    (i.address : Int) = pc := by
  unfold decode? at h
  split at h
  · cases h
  · have haddress := (front?_eq_some_iff.mp h).1
    omega

/-- Bytes outside an instruction have no part in decoding it. -/
theorem decode?_congr {code other : Bytes} (h : decode? code i.address = some i)
    (hagree : ∀ k, i.address ≤ k → k < i.next → other[k]? = code[k]?) :
    decode? other i.address = some i := by
  obtain ⟨b, own, rest, hcode, hopcode, hwritten⟩ := decode?_eq_some_iff.mp h
  have hlength : i.next = i.address + (own.length + 1) := by
    rw [hwritten.length, next, operandLength]
    omega
  have htake : (other.drop i.address).take (own.length + 1) = b :: own := by
    have hown : (code.drop i.address).take (own.length + 1) = b :: own := by
      rw [hcode, List.take_succ_cons, List.take_left]
    rw [← hown]
    refine List.ext_getElem? fun k => ?_
    rw [List.getElem?_take, List.getElem?_take]
    split
    · rw [List.getElem?_drop, List.getElem?_drop]
      exact hagree _ (by omega) (by omega)
    · rfl
  refine decode?_eq_some_iff.mpr ⟨b, own, (other.drop i.address).drop (own.length + 1), ?_, hopcode,
    hwritten⟩
  rw [← List.cons_append, ← htake, List.take_append_drop]

theorem extract_of_decode? {code : Bytes} (h : decode? code i.address = some i) :
    (∀ f ∈ i.fields, f.InRange) ∧ ∃ unrecorded : Bytes,
      unrecorded.length = i.opcode.shape.unrecorded ∧
        code.extract i.address i.next = i.encode ++ unrecorded := by
  obtain ⟨b, own, rest, hcode, hopcode, hwritten⟩ := decode?_eq_some_iff.mp h
  obtain ⟨hrange, unrecorded, hlength, hown⟩ := fields_of_written hwritten
  have hnext : i.next - i.address = own.length + 1 := by
    rw [hwritten.length, next, operandLength]
    omega
  refine ⟨hrange, unrecorded, hlength, ?_⟩
  rw [List.extract_eq_take_drop, hnext, hcode, List.take_succ_cons, List.take_left, encode,
    Opcode.toByte_of_ofByte? hopcode, List.cons_append, ← hown]

theorem decode?_append {code : Bytes} (h : decode? code i.address = some i) (more : Bytes) :
    decode? (code ++ more) i.address = some i := by
  have hend := (decode?_eq_some h).2.2
  exact decode?_congr h fun k _ hk => List.getElem?_append_left (by omega)

/-- Decoding loses nothing and looks at nothing else: an instruction lies inside its code, its
opcode and its numbers in two's complement are its bytes, up to the last one of an interface call,
and any code with the same bytes there decodes to it. So code that is longer begins with the same
instructions. -/
theorem decode?_faithful :
    (∀ (code : Bytes) (pc : Int) (i : Instruction), decode? code pc = some i →
      (i.address : Int) = pc ∧ i.next ≤ code.length ∧ (∀ f ∈ i.fields, f.InRange) ∧
      (∃ unrecorded : Bytes, unrecorded.length = i.opcode.shape.unrecorded ∧
        code.extract i.address i.next = i.encode ++ unrecorded) ∧
      ∀ other : Bytes, (∀ k, i.address ≤ k → k < i.next → other[k]? = code[k]?) →
        decode? other pc = some i) ∧
    ∀ code more : Bytes,
      (Listing.sweep code).instructions <+: (Listing.sweep (code ++ more)).instructions := by
  refine ⟨fun code pc i h => ?_, fun code more => ?_⟩
  · obtain rfl := address_of_decode? h
    obtain ⟨hrange, hbytes⟩ := extract_of_decode? h
    exact ⟨rfl, (decode?_eq_some h).2.2, hrange, hbytes, fun other hagree => decode?_congr h hagree⟩
  · refine (Listing.sweep_tiles code).isPrefix (Listing.sweep_tiles (code ++ more)) fun a i h => ?_
    obtain rfl := (decode?_eq_some h).1
    exact decode?_append h more

/-- An interface call after an increment, and the same bytes behind three others. -/
theorem decode?_faithful_interface :
    ∃ i : Instruction, decode? [0x84, 2, 0xff, 0xb9, 0, 7, 2, 0] 3 = some i ∧
      i.encode = [0xb9, 0, 7, 2] ∧ i.opcode.shape.unrecorded = 1 ∧
      decode? [0, 0, 0, 0xb9, 0, 7, 2, 0] 3 = some i := by
  have hi : decode? [0x84, 2, 0xff, 0xb9, 0, 7, 2, 0] 3 =
      some ⟨3, .invokeinterface, .interface 7 2⟩ := by decide +kernel
  have hlocal := (decode?_faithful.1 _ _ _ hi).2.2.2.2
  refine ⟨_, hi, by decide +kernel, by decide +kernel, hlocal _ fun k hk hk' => ?_⟩
  have hnext : k < 8 := hk'
  have hagree : ∀ k < 8, 3 ≤ k → ([0, 0, 0, 0xb9, 0, 7, 2, 0] : Bytes)[k]? =
      ([0x84, 2, 0xff, 0xb9, 0, 7, 2, 0] : Bytes)[k]? := by decide
  exact hagree k hnext hk

end Instruction

end Jvm
