import Jvm.Attribute.Basic

/-!
# Sweeps tile their code

A sweep lays instructions one behind the other, from the start of the code to its end or to the
first address at which none can be decoded. So an address inside the code is that of an instruction,
lies in the middle of one, or comes at or after the address at which the sweep stopped.
-/

namespace Jvm

/-! ### Decoded instructions lie inside the code -/

theorem Operand.width_le_of_front? {shape : Shape} {bytes : Bytes} {operand : Operand}
    (h : front? shape bytes = some operand) : shape.width ≤ bytes.length := by
  unfold front? at h
  split at h <;> simp [Shape.width] at h ⊢

namespace Instruction

theorem front?_cons {address : Nat} {b : UInt8} {rest : Bytes} {i : Instruction}
    (h : front? address (b :: rest) = some i) :
    i.address = address ∧ i.operandLength ≤ rest.length := by
  obtain ⟨opcode, -, h⟩ := Option.bind_eq_some_iff.mp h
  obtain ⟨operand, hoperand, h⟩ := Option.bind_eq_some_iff.mp h
  cases h
  exact ⟨rfl, Operand.width_le_of_front? hoperand⟩

theorem decode?_ofNat (code : Bytes) (pc : Nat) :
    decode? code pc = front? pc (code.drop pc) := by
  rw [decode?, if_neg (by omega), Int.toNat_natCast]

theorem decode?_eq_some {code : Bytes} {pc : Nat} {i : Instruction}
    (h : decode? code pc = some i) : i.address = pc ∧ pc < i.next ∧ i.next ≤ code.length := by
  rw [decode?_ofNat] at h
  cases hdrop : code.drop pc with
  | nil =>
    rw [hdrop] at h
    cases h
  | cons b rest =>
    rw [hdrop] at h
    obtain ⟨haddress, hlength⟩ := front?_cons h
    have hrest : code.length - pc = rest.length + 1 := by
      rw [← List.length_drop, hdrop, List.length_cons]
    unfold next
    omega

end Instruction

namespace Listing

/-! ### Tilings -/

/-- Instructions decoded one behind the other from an address on, to the end of the code or to an
address at which none can be decoded. -/
inductive Tiles (code : Bytes) : Nat → List Instruction → Option Nat → Prop where
  | done : Tiles code code.length [] none
  | halt {a : Nat} (hlt : a < code.length) (hnone : Instruction.decode? code a = none) :
    Tiles code a [] (some a)
  | next {a : Nat} {i : Instruction} {rest : List Instruction} {halt? : Option Nat}
    (hdecode : Instruction.decode? code a = some i) (h : Tiles code i.next rest halt?) :
    Tiles code a (i :: rest) halt?

theorem sweepFrom_tiles {code : Bytes} (bytes : Bytes) (found : Found) (address skip : Nat)
    (hbytes : code.drop address = bytes) (hle : address ≤ code.length)
    (hskip : skip ≤ bytes.length) :
    ∃ rest, (sweepFrom found address skip bytes).instructions =
        found.instructions.reverse ++ rest ∧
      Tiles code (address + skip) rest (sweepFrom found address skip bytes).halt? := by
  -- The bytes are what is left of the code, and what is skipped is there.
  have hlength : code.length = address + bytes.length := by
    rw [← hbytes, List.length_drop]
    omega
  induction bytes generalizing found address skip with
  | nil =>
    obtain rfl : skip = 0 := by simpa using hskip
    obtain rfl : address = code.length := by simpa using hlength.symm
    exact ⟨[], by simp [sweepFrom, Found.listing], Tiles.done⟩
  | cons b rest ih =>
    have hrest : code.drop (address + 1) = rest := by
      rw [← List.drop_drop, hbytes]
      rfl
    rw [List.length_cons] at hlength hskip
    cases skip with
    | succ skip =>
      have hsum : address + (skip + 1) = address + 1 + skip := by omega
      rw [sweepFrom, hsum]
      exact ih found (address + 1) skip hrest (by omega) (by omega) (by omega)
    | zero =>
      have hdecode : Instruction.decode? code address = Instruction.front? address (b :: rest) := by
        rw [Instruction.decode?_ofNat, hbytes]
      rw [sweepFrom]
      cases hfront : Instruction.front? address (b :: rest) with
      | none =>
        rw [hfront] at hdecode
        exact ⟨[], by simp [Found.listing], .halt (by omega) hdecode⟩
      | some i =>
        rw [hfront] at hdecode
        obtain ⟨haddress, hoperands⟩ := Instruction.front?_cons hfront
        obtain ⟨more, hmore, htiles⟩ :=
          ih (found.add address i) (address + 1) i.operandLength hrest (by omega) hoperands
            (by omega)
        refine ⟨i :: more, by simpa [Found.add] using hmore, .next hdecode ?_⟩
        rw [Instruction.next, haddress]
        exact htiles

/-- A sweep tiles its code from the start. -/
theorem sweep_tiles (code : Bytes) :
    Tiles code 0 (sweep code).instructions (sweep code).halt? := by
  obtain ⟨rest, hrest, htiles⟩ :=
    sweepFrom_tiles code {} 0 0 List.drop_zero (Nat.zero_le _) (Nat.zero_le _)
  rw [sweep, hrest]
  exact htiles

namespace Tiles

variable {code : Bytes} {a : Nat} {instructions : List Instruction} {halt? : Option Nat}

theorem decode? (h : Tiles code a instructions halt?) :
    ∀ i ∈ instructions, a ≤ i.address ∧ Instruction.decode? code i.address = some i := by
  induction h with
  | done => exact List.forall_mem_nil _
  | halt hlt hnone => exact List.forall_mem_nil _
  | @next a i rest halt? hdecode h ih =>
    obtain ⟨haddress, hnext, -⟩ := Instruction.decode?_eq_some hdecode
    refine List.forall_mem_cons.mpr ⟨⟨by omega, by rwa [haddress]⟩, fun j hj => ?_⟩
    obtain ⟨hle, hj⟩ := ih j hj
    exact ⟨by omega, hj⟩

theorem next_le_halt (h : Tiles code a instructions halt?) {stop : Nat} (hstop : halt? = some stop) :
    a ≤ stop ∧ ∀ i ∈ instructions, i.next ≤ stop := by
  induction h with
  | done => cases hstop
  | halt hlt hnone =>
    cases hstop
    exact ⟨Nat.le_refl _, List.forall_mem_nil _⟩
  | @next a i rest halt? hdecode h ih =>
    obtain ⟨hle, hrest⟩ := ih hstop
    obtain ⟨-, hnext, -⟩ := Instruction.decode?_eq_some hdecode
    exact ⟨by omega, List.forall_mem_cons.mpr ⟨hle, hrest⟩⟩

theorem decode?_halt (h : Tiles code a instructions halt?) {stop : Nat} (hstop : halt? = some stop) :
    Instruction.decode? code stop = none := by
  induction h with
  | done => cases hstop
  | halt hlt hnone =>
    cases hstop
    exact hnone
  | next hdecode h ih => exact ih hstop

/-- The middle of an instruction is not the address of another one. -/
theorem apart (h : Tiles code a instructions halt?) {i j : Instruction} (hi : i ∈ instructions)
    (hj : j ∈ instructions) : ¬ (i.address < j.address ∧ j.address < i.next) := by
  induction h with
  | done => cases hi
  | halt hlt hnone => cases hi
  | @next a k rest halt? hdecode h ih =>
    obtain ⟨haddress, hnext, -⟩ := Instruction.decode?_eq_some hdecode
    have hrest := h.decode?
    rcases List.mem_cons.mp hi with rfl | hi
    · rcases List.mem_cons.mp hj with rfl | hj
      · omega
      · have hbehind := (hrest j hj).1
        omega
    · have hbehind := (hrest i hi).1
      rcases List.mem_cons.mp hj with rfl | hj
      · omega
      · exact ih hi hj

/-- From its start on, a tiling covers the code up to the address at which it stops. -/
theorem covers (h : Tiles code a instructions halt?) {pc : Nat} (hle : a ≤ pc)
    (hlt : pc < code.length) :
    (∃ i ∈ instructions, i.address ≤ pc ∧ pc < i.next) ∨ ∃ stop, halt? = some stop ∧ stop ≤ pc := by
  induction h with
  | done => omega
  | halt hstop hnone => exact .inr ⟨_, rfl, hle⟩
  | @next a i rest halt? hdecode h ih =>
    obtain ⟨haddress, hnext, -⟩ := Instruction.decode?_eq_some hdecode
    by_cases hpc : pc < i.next
    · exact .inl ⟨i, List.mem_cons_self, by omega, hpc⟩
    · rcases ih (by omega) with ⟨j, hj, hinside⟩ | hstop
      · exact .inl ⟨j, List.mem_cons_of_mem _ hj, hinside⟩
      · exact .inr hstop

end Tiles

/-! ### The map of addresses -/

/-- The map of the instructions found so far has an entry for the address and the position of each
of them, and no other. -/
structure Found.Indexed (found : Found) : Prop where
  count : found.count = found.instructions.length
  entry : ∀ a k, (a, k) ∈ found.byAddress ↔
    ∃ i, found.instructions.reverse[k]? = some i ∧ i.address = a

theorem Found.indexed_empty : Indexed {} := ⟨rfl, by simp⟩

theorem Found.Indexed.add {found : Found} (h : found.Indexed) {address : Nat} {i : Instruction}
    (haddress : i.address = address) : (found.add address i).Indexed := by
  subst haddress
  refine ⟨congrArg (· + 1) h.count, fun a k => ?_⟩
  have hcount : found.count = found.instructions.reverse.length := by
    rw [h.count, List.length_reverse]
  -- The new instruction stands behind the others.
  have hlast : ∀ j, (found.instructions.reverse ++ [i])[k]? = some j ↔
      found.instructions.reverse[k]? = some j ∨ k = found.count ∧ j = i := by
    intro j
    rw [hcount, List.getElem?_append]
    split <;> grind
  simp only [Found.add, List.mem_cons, Prod.mk.injEq, List.reverse_cons, h.entry, hlast]
  constructor
  · rintro (⟨rfl, rfl⟩ | ⟨j, hj, haddress⟩)
    · exact ⟨i, .inr ⟨rfl, rfl⟩, rfl⟩
    · exact ⟨j, .inl hj, haddress⟩
  · rintro ⟨j, hj | ⟨hk, rfl⟩, haddress⟩
    · exact .inr ⟨j, hj, haddress⟩
    · exact .inl ⟨haddress.symm, hk⟩

theorem sweepFrom_indexed (bytes : Bytes) {found : Found} (h : found.Indexed)
    (address skip : Nat) (a k : Nat) :
    (a, k) ∈ (sweepFrom found address skip bytes).byAddress ↔
      ∃ i, (sweepFrom found address skip bytes).instructions[k]? = some i ∧ i.address = a := by
  induction bytes generalizing found address skip with
  | nil => exact h.entry a k
  | cons b rest ih =>
    cases skip with
    | succ skip => exact ih h (address + 1) skip
    | zero =>
      rw [sweepFrom]
      cases hfront : Instruction.front? address (b :: rest) with
      | none => exact h.entry a k
      | some i =>
        have haddress := (Instruction.front?_cons hfront).1
        exact ih (h.add haddress) (address + 1) i.operandLength

theorem mem_byAddress_sweep {code : Bytes} {a k : Nat} :
    (a, k) ∈ (sweep code).byAddress ↔
      ∃ i, (sweep code).instructions[k]? = some i ∧ i.address = a :=
  sweepFrom_indexed code Found.indexed_empty 0 0 a k

/-! ### Look-ups by address -/

/-- A look-up finds an instruction exactly at the address of one. -/
theorem at?_sweep_eq_some_iff {code : Bytes} {pc : Int} {i : Instruction} :
    (sweep code).at? pc = some i ↔ i ∈ (sweep code).instructions ∧ (i.address : Int) = pc := by
  have hfound : ∀ {j}, (sweep code).at? pc = some j →
      j ∈ (sweep code).instructions ∧ (j.address : Int) = pc := by
    intro j hj
    obtain ⟨⟨a, k⟩, hentry, hk⟩ := Option.bind_eq_some_iff.mp hj
    have haddress : (a : Int) = pc := by simpa using List.find?_some hentry
    obtain ⟨j', hj', rfl⟩ := mem_byAddress_sweep.mp (List.mem_of_find?_eq_some hentry)
    obtain rfl : j' = j := Option.some_inj.mp (hj'.symm.trans hk)
    exact ⟨List.mem_of_getElem? hj', haddress⟩
  refine ⟨hfound, ?_⟩
  rintro ⟨hi, haddress⟩
  -- Another instruction at the same address is decoded from the same bytes.
  have hdecode := fun j hj => ((sweep_tiles code).decode? j hj).2
  cases h : (sweep code).at? pc with
  | none =>
    obtain ⟨k, hk⟩ := List.getElem?_of_mem hi
    have hentry := mem_byAddress_sweep.mpr ⟨i, hk, rfl⟩
    cases hfind : (sweep code).byAddress.find? fun entry => (entry.1 : Int) == pc with
    | none =>
      have hne := List.find?_eq_none.mp hfind _ hentry
      simp only [beq_iff_eq] at hne
      exact absurd haddress hne
    | some entry =>
      -- Each entry leads to an instruction.
      obtain ⟨j, hj, -⟩ := mem_byAddress_sweep.mp (List.mem_of_find?_eq_some hfind)
      have hnone : (sweep code).instructions[entry.2]? = none :=
        Option.bind_eq_none_iff.mp h entry hfind
      rw [hj] at hnone
      cases hnone
  | some j =>
    obtain ⟨hj, haddress'⟩ := hfound h
    have heq := hdecode j hj
    rw [haddress', ← haddress, hdecode i hi] at heq
    exact heq.symm

/-- The map gives what a search through the instructions gives. -/
theorem at?_sweep_eq_find? (code : Bytes) (pc : Int) :
    (sweep code).at? pc = (sweep code).instructions.find? (fun i => (i.address : Int) == pc) := by
  cases hfind : (sweep code).instructions.find? (fun i => (i.address : Int) == pc) with
  | some i =>
    have haddress := List.find?_some hfind
    exact at?_sweep_eq_some_iff.mpr
      ⟨List.mem_of_find?_eq_some hfind, by simpa only [beq_iff_eq] using haddress⟩
  | none =>
    refine Option.eq_none_iff_forall_ne_some.mpr fun i hi => ?_
    obtain ⟨hmem, haddress⟩ := at?_sweep_eq_some_iff.mp hi
    have hne := List.find?_eq_none.mp hfind i hmem
    simp only [beq_iff_eq] at hne
    exact hne haddress

theorem at?_sweep {code : Bytes} {pc : Nat} {i : Instruction}
    (h : (sweep code).at? pc = some i) :
    i ∈ (sweep code).instructions ∧ i.address = pc ∧ Instruction.decode? code pc = some i := by
  obtain ⟨hmem, haddress⟩ := at?_sweep_eq_some_iff.mp h
  have hdecode := ((sweep_tiles code).decode? i hmem).2
  rw [haddress] at hdecode
  exact ⟨hmem, Int.ofNat_inj.mp haddress, hdecode⟩

/-- An address inside the code is not that of an instruction exactly when it lies in the middle of
one, or at or after the address at which the sweep stopped because nothing could be decoded there. -/
theorem at?_sweep_eq_none_iff {code : Bytes} {pc : Nat} (hlt : pc < code.length) :
    (sweep code).at? pc = none ↔
      (∃ i ∈ (sweep code).instructions, i.address < pc ∧ pc < i.next) ∨
      ∃ stop ≤ pc, (sweep code).halt? = some stop ∧ Instruction.decode? code stop = none := by
  have htiles := sweep_tiles code
  have hat : (sweep code).at? pc = none ↔ ∀ i ∈ (sweep code).instructions, i.address ≠ pc := by
    simp only [at?_sweep_eq_find?, List.find?_eq_none, beq_iff_eq, Int.ofNat_inj, ne_eq]
  rw [hat]
  constructor
  · intro hnone
    rcases htiles.covers (Nat.zero_le pc) hlt with ⟨i, hi, hle, hinside⟩ | ⟨stop, hstop, hle⟩
    · have hne := hnone i hi
      exact .inl ⟨i, hi, by omega, hinside⟩
    · exact .inr ⟨stop, hle, hstop, htiles.decode?_halt hstop⟩
  · rintro (⟨i, hi, hbefore, hinside⟩ | ⟨stop, hle, hstop, -⟩) j hj rfl
    · exact htiles.apart hi hj ⟨hbefore, hinside⟩
    · have hbelow := (htiles.next_le_halt hstop).2 j hj
      have hnext : j.address < j.next := by
        unfold Instruction.next
        omega
      omega

end Listing

namespace Code

variable {c : Code} {pc : Nat}

theorem at?_eq_sweep (c : Code) (pc : Nat) : c.at? pc = (Listing.sweep c.bytes).at? pc := by
  rw [at?, c.listing_eq]

theorem inside_of_at? {i : Instruction} (h : c.at? pc = some i) :
    pc < i.next ∧ i.next ≤ c.bytes.length := by
  rw [at?_eq_sweep] at h
  obtain ⟨-, -, hdecode⟩ := Listing.at?_sweep h
  exact (Instruction.decode?_eq_some hdecode).2

theorem exists_byte_of_at? {i : Instruction} (h : c.at? pc = some i) :
    ∃ byte, c.bytes[pc]? = some byte := by
  obtain ⟨hnext, hend⟩ := inside_of_at? h
  exact ⟨c.bytes[pc], List.getElem?_eq_getElem (by omega)⟩

end Code

end Jvm
