import Mathlib.Data.List.Chain
import Jvm.Proofs.Instruction.Tiling

/-!
# What a sweep finds

The instructions of a sweep lie one behind the other without a gap, and a look-up finds exactly
them. Code that goes on after its end keeps the instructions it had.
-/

namespace Jvm.Listing

namespace Tiles

variable {code : Bytes} {a : Nat} {instructions : List Instruction} {halt? : Option Nat}

theorem halt_lt (h : Tiles code a instructions halt?) {stop : Nat} (hstop : halt? = some stop) :
    stop < code.length := by
  induction h with
  | done => cases hstop
  | halt hlt hnone =>
    cases hstop
    exact hlt
  | next hdecode h ih => exact ih hstop

theorem address_head (h : Tiles code a instructions halt?) :
    ∀ i ∈ instructions.head?, i.address = a := by
  cases h with
  | done => exact fun _ hi => nomatch hi
  | halt hlt hnone => exact fun _ hi => nomatch hi
  | next hdecode h =>
    rintro i ⟨⟩
    exact (Instruction.decode?_eq_some hdecode).1

theorem isChain (h : Tiles code a instructions halt?) :
    instructions.IsChain fun i j => j.address = i.next := by
  induction h with
  | done => exact .nil
  | halt hlt hnone => exact .nil
  | @next a i rest halt? hdecode h ih =>
    cases rest with
    | nil => exact .singleton i
    | cons j rest => exact .cons_cons (h.address_head j rfl) ih

/-- A tiling ends at the address at which it stops, or else where the code ends. -/
theorem next_last (h : Tiles code a instructions halt?) :
    (instructions.getLast?.map Instruction.next).getD a = halt?.getD code.length := by
  induction h with
  | done => rfl
  | halt hlt hnone => rfl
  | @next a i rest halt? hdecode h ih =>
    cases rest with
    | nil => exact ih
    | cons j rest => exact ih

theorem length_add_le (h : Tiles code a instructions halt?) :
    instructions.length + a ≤ code.length := by
  induction h with
  | done => simp
  | halt hlt hnone =>
    rw [List.length_nil]
    omega
  | @next a i rest halt? hdecode h ih =>
    have hnext := (Instruction.decode?_eq_some hdecode).2.1
    rw [List.length_cons]
    omega

/-- Where everything decodes as in the code, a tiling goes on at least as long. -/
theorem isPrefix {other : Bytes} {instructions' : List Instruction} {halt?' : Option Nat}
    (h : Tiles code a instructions halt?) (h' : Tiles other a instructions' halt?')
    (hdecode : ∀ (b : Nat) i, Instruction.decode? code b = some i →
      Instruction.decode? other b = some i) : instructions <+: instructions' := by
  induction h generalizing instructions' with
  | done => exact List.nil_prefix
  | halt hlt hnone => exact List.nil_prefix
  | @next a i rest halt? hi h ih =>
    have hi' := hdecode a i hi
    cases h' with
    | done =>
      have hend := Instruction.decode?_eq_some hi'
      omega
    | halt hlt hnone =>
      rw [hi'] at hnone
      cases hnone
    | next hj h' =>
      rw [hi'] at hj
      cases hj
      exact List.cons_prefix_cons.mpr ⟨rfl, ih h'⟩

end Tiles

/-- The instructions of a sweep lie one behind the other, from address 0 to the end of the code or
to the address at which nothing can be decoded. An instruction is found at exactly their addresses,
and it is the one that is decoded there. -/
theorem sweep_contiguous (code : Bytes) :
    (sweep code).instructions.length ≤ code.length ∧
    (∀ i ∈ (sweep code).instructions.head?, i.address = 0) ∧
    ((sweep code).instructions.IsChain fun i j => j.address = i.next) ∧
    ((sweep code).instructions.getLast?.map Instruction.next).getD 0 =
      (sweep code).halt?.getD code.length ∧
    (∀ stop ∈ (sweep code).halt?, stop < code.length ∧ Instruction.decode? code stop = none) ∧
    ∀ pc : Int,
      (((sweep code).at? pc).isSome ↔ ∃ i ∈ (sweep code).instructions, (i.address : Int) = pc) ∧
      ∀ i, (sweep code).at? pc = some i → Instruction.decode? code pc = some i := by
  have htiles := sweep_tiles code
  refine ⟨htiles.length_add_le, htiles.address_head, htiles.isChain, htiles.next_last,
    fun stop hstop => ⟨htiles.halt_lt hstop, htiles.decode?_halt hstop⟩, fun pc => ⟨?_, ?_⟩⟩
  · simp only [Option.isSome_iff_exists, at?_sweep_eq_some_iff]
  · intro i hi
    obtain ⟨hmem, rfl⟩ := at?_sweep_eq_some_iff.mp hi
    exact (htiles.decode? i hmem).2

/-- A sweep over two instructions that stops at the byte behind them. -/
theorem sweep_contiguous_halted :
    (sweep [0x04, 0x3b, 0xca, 0xb1]).halt? = some 2 ∧
      Instruction.decode? [0x04, 0x3b, 0xca, 0xb1] 2 = none := by
  have hhalt : (sweep [0x04, 0x3b, 0xca, 0xb1]).halt? = some 2 := by decide +kernel
  exact ⟨hhalt, ((sweep_contiguous _).2.2.2.2.1 2 hhalt).2⟩

end Jvm.Listing
