import Mathlib
import Jvm.Proofs.Instruction.Encoding
import Jvm.Proofs.Texts

/-!
# What an instruction prints as

The text of an instruction is taken apart again at its colon, its blanks and its commas. The mnemonic
gives the opcode and with it the layout of the operand, so the text gives the whole instruction.
-/

namespace Jvm

/-! ### Mnemonics -/

namespace Opcode

def nameCode (s : String) : Nat := s.toByteArray.data.toList.foldl (fun n b => 256 * n + b.toNat) 0

-- Characters are slow to compute with; numbers are compared at once.
theorem nodup_nameCode : (all.map fun op => nameCode op.name).Nodup := by decide +kernel

theorem eq_of_name {op op' : Opcode} (hop : op ∈ all) (hop' : op' ∈ all) (h : op.name = op'.name) :
    op = op' :=
  List.inj_on_of_nodup_map nodup_nameCode hop hop' (congrArg nameCode h)

theorem mem_all_of_ofByte? {b : UInt8} {op : Opcode} (h : ofByte? b = some op) : op ∈ all :=
  List.mem_of_find?_eq_some h

theorem blank_not_mem_name (op : Opcode) : ∀ c ∈ [' ', '\t', '\n'], c ∉ op.name.toList := by
  have hnumber (n : Nat) : ' ' ∉ n.repr.toList ∧ '\t' ∉ n.repr.toList ∧ '\n' ∉ n.repr.toList :=
    ⟨Text.not_mem_repr rfl n, Text.not_mem_repr rfl n, Text.not_mem_repr rfl n⟩
  cases op with
  | iconst n =>
    rw [name]
    split
    · simp
    · simpa using hnumber (n.val - 1)
  | lconst n | fconst n | dconst n => simpa [name] using hnumber n.val
  | load k | store k | valueReturn k => cases k <;> simp [name, Kind.letter]
  | loadFrom k n | storeTo k n => cases k <;> simpa [name, Kind.letter] using hnumber n.val
  | intBinary op => cases op <;> simp [name, IntOp.name]
  | longBinary op => cases op <;> simp [name, LongOp.name]
  | ifInt c | ifIntCompare c => cases c <;> simp [name, Comparison.name]
  | ifReferenceCompare b | ifNull b => cases b <;> simp [name]
  | _ => simp [name]

theorem space_not_mem_name (op : Opcode) : ' ' ∉ op.name.toList :=
  op.blank_not_mem_name ' ' (List.mem_cons_self ..)

end Opcode

/-! ### Operands -/

/-- What is printed behind a mnemonic and a blank, with a blank at the end. -/
def Operand.ending (address : Nat) : Operand → List Char
  | .none => []
  | .slot n => n.toNat.repr.toList ++ [' ']
  | .immediate v => v.toInt.repr.toList ++ [' ']
  | .pool n => '#' :: (n.toNat.repr.toList ++ [' '])
  | .increment n v => n.toNat.repr.toList ++ ',' :: ' ' :: (v.toInt.repr.toList ++ [' '])
  | .branch o => (address + o.toInt : Int).repr.toList ++ [' ']
  | .interface n c => '#' :: (n.toNat.repr.toList ++ ',' :: ' ' :: (c.toNat.repr.toList ++ [' ']))

theorem Operand.Written.ending_inj {shape : Shape} {x y : Operand} {own own' : Bytes}
    (hx : Written shape x own) (hy : Written shape y own') {address : Nat}
    (h : x.ending address = y.ending address) : x = y := by
  have hnat : ∀ {m n : Nat}, m.repr.toList = n.repr.toList → m = n :=
    fun h => Nat.repr_injective (String.toList_injective h)
  have hint : ∀ {m n : Int}, m.repr.toList = n.repr.toList → m = n :=
    fun h => Int.repr_injective (String.toList_injective h)
  have hcomma := Text.not_mem_repr (c := ',') rfl
  cases hx with
  | none =>
    cases hy
    rfl
  | slot a =>
    cases hy with | slot b =>
    rw [UInt8.toNat_inj.mp (hnat (List.append_cancel_right h))]
  | byteImmediate a =>
    cases hy with | byteImmediate b =>
    rw [Int16.toInt_inj.mp (hint (List.append_cancel_right h))]
  | shortImmediate w =>
    cases hy with | shortImmediate v =>
    rw [Int16.toInt_inj.mp (hint (List.append_cancel_right h))]
  | poolByte a =>
    cases hy with | poolByte b =>
    rw [UInt16.toNat_inj.mp (hnat (List.append_cancel_right (List.cons.inj h).2))]
  | pool w =>
    cases hy with | pool v =>
    rw [UInt16.toNat_inj.mp (hnat (List.append_cancel_right (List.cons.inj h).2))]
  | branch w =>
    cases hy with | branch v =>
    have htarget := hint (List.append_cancel_right h)
    rw [Int16.toInt_inj.mp (Int.add_left_cancel htarget)]
  | increment a b =>
    cases hy with | increment a' b' =>
    obtain ⟨hslot, hrest⟩ := Text.append_separator_inj (hcomma _) (hcomma _) h
    rw [UInt8.toNat_inj.mp (hnat hslot),
      Int8.toInt_inj.mp (hint (List.append_cancel_right (List.cons.inj hrest).2))]
  | interface w c last =>
    cases hy with | interface w' c' last' =>
    obtain ⟨hindex, hrest⟩ := Text.append_separator_inj (hcomma _) (hcomma _) (List.cons.inj h).2
    rw [UInt16.toNat_inj.mp (hnat hindex),
      UInt8.toNat_inj.mp (hnat (List.append_cancel_right (List.cons.inj hrest).2))]

/-! ### Instructions -/

namespace Instruction

theorem toList_text (i : Instruction) :
    i.text.toList ++ [' '] = i.address.repr.toList ++
      ':' :: ' ' :: (i.opcode.name.toList ++ ' ' :: i.operand.ending i.address) := by
  -- The blank at the end is the one that follows the mnemonic where there is no operand.
  obtain ⟨address, opcode, operand⟩ := i
  cases operand <;> simp [text, target, offset, Operand.ending]

/-- Decoded instructions that print as the same text are the same, wherever they were decoded. -/
theorem eq_of_text {code code' : Bytes} {pc pc' : Int} {i j : Instruction}
    (hi : decode? code pc = some i) (hj : decode? code' pc' = some j) (h : i.text = j.text) :
    i = j := by
  obtain rfl := address_of_decode? hi
  obtain rfl := address_of_decode? hj
  obtain ⟨b, own, -, -, hopcode, hwritten⟩ := decode?_eq_some_iff.mp hi
  obtain ⟨b', own', -, -, hopcode', hwritten'⟩ := decode?_eq_some_iff.mp hj
  -- The address ends at the first colon, and the mnemonic at the first blank after it.
  have hlist := (toList_text i).symm.trans ((congrArg (·.toList ++ [' ']) h).trans (toList_text j))
  obtain ⟨haddress, hrest⟩ := Text.append_separator_inj (Text.not_mem_repr rfl _)
    (Text.not_mem_repr rfl _) hlist
  obtain ⟨hname, hending⟩ := Text.append_separator_inj (Opcode.space_not_mem_name _)
    (Opcode.space_not_mem_name _) (List.cons.inj hrest).2
  have haddress := Nat.repr_injective (String.toList_injective haddress)
  have hop := Opcode.eq_of_name (Opcode.mem_all_of_ofByte? hopcode)
    (Opcode.mem_all_of_ofByte? hopcode') (String.toList_injective hname)
  rw [← haddress] at hending
  rw [← hop] at hwritten'
  have hoperand := hwritten.ending_inj hwritten' hending
  cases i
  cases j
  exact congr (congr (congrArg mk haddress) hop) hoperand

/-- A jump backwards, in two different codes. -/
theorem eq_of_text_goto :
    ∃ i j : Instruction, decode? [0x00, 0xa7, 0xff, 0xff] 1 = some i ∧
      decode? [0xb1, 0xa7, 0xff, 0xff, 0x57] 1 = some j ∧
      i.text = "1: goto 0" ∧ j.text = "1: goto 0" ∧ i = j := by
  have hi : decode? [0x00, 0xa7, 0xff, 0xff] 1 = some ⟨1, .goto, .branch (-1)⟩ := by decide +kernel
  have hj : decode? [0xb1, 0xa7, 0xff, 0xff, 0x57] 1 = some ⟨1, .goto, .branch (-1)⟩ := by
    decide +kernel
  exact ⟨_, _, hi, hj, by decide +kernel, by decide +kernel, eq_of_text hi hj rfl⟩

end Instruction

end Jvm
