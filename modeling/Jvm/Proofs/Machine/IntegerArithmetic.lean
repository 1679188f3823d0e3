import Mathlib
import Jvm.Proofs.Machine.CallingConvention

/-!
# Integer arithmetic

What the arithmetic instructions put on the stack, as numbers: the exact result, reduced to the
signed numbers of its width. Division goes toward zero and leaves a remainder of the sign of the
dividend; shifts multiply and divide by powers of two.
-/

namespace Jvm

/-! ### Shifts as products and quotients -/

/-- The distance of a shift: the number in the low five bits. -/
def shiftDistance (b : Int32) : Nat := (b.toInt % 32).toNat

-- A negative distance counts by its low bits, too.
example : shiftDistance (-1) = 31 := by decide

theorem toNat_lowBits (b : Int32) : (b &&& 31).toBitVec.toNat = shiftDistance b := by
  have hand : (b &&& 31).toBitVec.toNat = b.toBitVec.toNat % 32 := by
    rw [Int32.toBitVec_and, BitVec.toNat_and]
    exact Nat.and_two_pow_sub_one_eq_mod _ 5
  have hsigned : b.toInt = (b.toBitVec.toNat : Int).bmod (2 ^ 32) :=
    b.toBitVec.toInt_eq_toNat_bmod
  have hcongr : b.toInt % 32 = (b.toBitVec.toNat : Int) % 32 := by
    rw [hsigned, Int.bmod_def]
    split <;> omega
  rw [hand, shiftDistance, hcongr]
  omega

theorem shiftDistance_lt (b : Int32) : shiftDistance b < 32 := by
  unfold shiftDistance
  omega

theorem smod_lowBits (b : Int32) : ((b &&& 31).toBitVec.smod 32).toNat = shiftDistance b := by
  have hlow := toNat_lowBits b
  have hlt := shiftDistance_lt b
  have hmsb : (b &&& 31).toBitVec.msb = false := by
    rw [BitVec.msb_eq_decide, decide_eq_false_iff_not]
    omega
  have hmsb' : (32 : BitVec 32).msb = false := by decide
  rw [BitVec.smod_eq]
  simp only [hmsb, hmsb']
  rw [BitVec.umod_eq, BitVec.toNat_umod, hlow]
  exact Nat.mod_eq_of_lt hlt

theorem toInt_shiftLeft_lowBits (a b : Int32) :
    (a <<< (b &&& 31)).toInt = (a.toInt * 2 ^ shiftDistance b).bmod (2 ^ 32) := by
  have hsigned : a.toInt = (a.toBitVec.toNat : Int).bmod (2 ^ 32) :=
    a.toBitVec.toInt_eq_toNat_bmod
  calc (a <<< (b &&& 31)).toInt
      = (a.toBitVec <<< (b &&& 31).toBitVec.smod 32).toInt :=
        congrArg BitVec.toInt (Int32.toBitVec_shiftLeft a _)
    _ = ((a.toBitVec.toNat * 2 ^ shiftDistance b : Nat) : Int).bmod (2 ^ 32) := by
        rw [BitVec.shiftLeft_eq', BitVec.toInt_shiftLeft, smod_lowBits, Nat.shiftLeft_eq]
    _ = (a.toInt * 2 ^ shiftDistance b).bmod (2 ^ 32) := by
        rw [hsigned, Int.bmod_mul_bmod]
        push_cast
        rfl

theorem toInt_shiftRight_lowBits (a b : Int32) :
    (a >>> (b &&& 31)).toInt = a.toInt.fdiv (2 ^ shiftDistance b) := by
  calc (a >>> (b &&& 31)).toInt
      = (a.toBitVec.sshiftRight' ((b &&& 31).toBitVec.smod 32)).toInt :=
        congrArg BitVec.toInt (Int32.toBitVec_shiftRight a _)
    _ = a.toInt / ((2 ^ shiftDistance b : Nat) : Int) := by
        rw [BitVec.sshiftRight_eq', BitVec.toInt_sshiftRight, smod_lowBits,
          Int.shiftRight_eq_div_pow]
        rfl
    _ = a.toInt.fdiv (2 ^ shiftDistance b) := by
        rw [Int.fdiv_eq_ediv_of_nonneg _ (by positivity)]
        push_cast
        rfl

theorem toInt_emod (a : Int32) : a.toInt % 2 ^ 32 = (a.toBitVec.toNat : Int) := by
  have hsigned : a.toInt = (a.toBitVec.toNat : Int).bmod (2 ^ 32) :=
    a.toBitVec.toInt_eq_toNat_bmod
  have hlt := a.toBitVec.isLt
  rw [hsigned, Int.bmod_def]
  split <;> omega

theorem toInt_unsignedShift (a b : Int32) :
    (a.toUInt32 >>> (b &&& 31).toUInt32).toInt32.toInt =
      ((a.toInt % 2 ^ 32).fdiv (2 ^ shiftDistance b)).bmod (2 ^ 32) := by
  have hdistance : (b &&& 31).toUInt32.toNat % 32 = shiftDistance b := by
    have hlow : (b &&& 31).toUInt32.toNat = shiftDistance b := toNat_lowBits b
    rw [hlow, Nat.mod_eq_of_lt (shiftDistance_lt b)]
  have hquotient : ((a.toUInt32 >>> (b &&& 31).toUInt32).toNat : Int) =
      (a.toInt % 2 ^ 32).fdiv (2 ^ shiftDistance b) := by
    have hunsigned : a.toUInt32.toNat = a.toBitVec.toNat := rfl
    rw [UInt32.toNat_shiftRight, hdistance, Nat.shiftRight_eq_div_pow, hunsigned, toInt_emod,
      Int.fdiv_eq_ediv_of_nonneg _ (by positivity)]
    push_cast
    rfl
  rw [← hquotient]
  exact BitVec.toInt_eq_toNat_bmod _

/-! ### Narrowing and comparing -/

theorem toInt_intToChar (a : Int32) : (intToChar a).toInt = a.toInt % 2 ^ 16 := by
  have hlt := a.toBitVec.isLt
  have h := toInt_emod a
  calc (intToChar a).toInt = ((a.toBitVec.toNat % 2 ^ 16 : Nat) : Int).bmod (2 ^ 32) := by
        rw [intToChar]
        refine (BitVec.toInt_eq_toNat_bmod _).trans ?_
        congr 2
    _ = a.toInt % 2 ^ 16 := by
        rw [Int.bmod_def]
        split <;> omega

theorem toInt_compareLongs (a b : Int64) : (compareLongs a b).toInt = (a.toInt - b.toInt).sign := by
  unfold compareLongs
  split
  · rename_i h
    rw [Int64.lt_iff_toInt_lt] at h
    rw [Int.sign_eq_one_of_pos (by omega)]
    rfl
  · split
    · rename_i h
      rw [Int64.lt_iff_toInt_lt] at h
      rw [Int.sign_eq_neg_one_of_neg (by omega)]
      rfl
    · rename_i h h'
      rw [Int64.lt_iff_toInt_lt] at h h'
      have : a.toInt - b.toInt = 0 := by omega
      rw [this]
      rfl

/-! ### Division -/

/-- `q` and `r` are quotient and remainder of numbers of `width` bits. -/
structure Division (width : Nat) (a b q r : Int) : Prop where
  quotient : q = (a.tdiv b).bmod (2 ^ width)
  identity : (2 ^ width : Int) ∣ a - (q * b + r)
  small : |r| < |b|
  sign : r = 0 ∨ r.sign = a.sign
  /-- The one quotient that is out of range comes back to the dividend. -/
  least : a = -2 ^ (width - 1) → b = -1 → q = a ∧ r = 0

theorem bmod_least {width : Nat} (hwidth : 0 < width) :
    ((2 : Int) ^ (width - 1)).bmod (2 ^ width) = -2 ^ (width - 1) := by
  obtain ⟨n, rfl⟩ : ∃ n, width = n + 1 := ⟨width - 1, by omega⟩
  have hpos : (0 : Int) < 2 ^ n := by positivity
  rw [Nat.add_sub_cancel, Int.bmod_def, Nat.cast_pow, Nat.cast_ofNat, pow_succ,
    Int.emod_eq_of_lt hpos.le (by omega)]
  split <;> omega

theorem division {width : Nat} (hwidth : 0 < width) (a : Int) {b : Int} (hb : b ≠ 0) :
    Division width a b ((a.tdiv b).bmod (2 ^ width)) (a.tmod b) where
  quotient := rfl
  identity := by
    obtain ⟨k, hk⟩ : ((2 ^ width : Nat) : Int) ∣ a.tdiv b - (a.tdiv b).bmod (2 ^ width) :=
      Int.dvd_self_sub_bmod
    have hexact := Int.mul_tdiv_add_tmod a b
    refine ⟨k * b, ?_⟩
    push_cast at hk
    linear_combination b * hk - hexact
  small := by
    have habs := Int.natAbs_tmod a b
    have hlt := Nat.mod_lt a.natAbs (Int.natAbs_pos.mpr hb)
    rw [Int.abs_eq_natAbs, Int.abs_eq_natAbs]
    omega
  sign := by
    have hsign := Int.sign_tmod a b
    split at hsign
    · exact .inl (Int.sign_eq_zero_iff_zero.mp hsign)
    · exact .inr hsign
  least := by
    rintro rfl rfl
    refine ⟨?_, ?_⟩
    · rw [Int.tdiv_neg, Int.tdiv_one, neg_neg, bmod_least hwidth]
    · rw [Int.tmod_neg, Int.tmod_one]

/-! ### Instructions on the stack -/

namespace Environment

variable (env : Environment)

/-- On operands of which the last lies on top, the instruction leaves the result in their place and
everything else as it is. -/
def Computes (opcode : Opcode) (operands : List Value) (result : Value) : Prop :=
  ∀ (depth : Nat) (i : Instruction) (s : Scene) (below : List Value), i.opcode = opcode →
    env.execute depth i (s.withStack (operands.reverse ++ below)) =
      (.ok .next, s.withStack (result :: below))

/-- On these operands the instruction fails for a division by zero. -/
def FailsByZero (opcode : Opcode) (operands : List Value) : Prop :=
  ∀ (depth : Nat) (i : Instruction) (s : Scene) (below : List Value), i.opcode = opcode →
    ∃ detail t, env.execute depth i (s.withStack (operands.reverse ++ below)) =
      (.error (divisionByZero detail), t)

end Environment

/-- The instruction takes operands off the stack and pushes a result computed from them, if there
is one. -/
def Environment.Replaces (env : Environment) (opcode : Opcode) (operands : List Value)
    (result : Except Fault Value) : Prop :=
  ∀ (depth : Nat) (i : Instruction) (s : Scene) (below : List Value), i.opcode = opcode →
    env.execute depth i (s.withStack (operands.reverse ++ below)) =
      (Effect.ofExcept result >>= Exec.pushNext) (s.withStack below)

section

variable {env : Environment} {opcode : Opcode} {operands : List Value}

theorem Environment.Replaces.computes {v : Value} (h : env.Replaces opcode operands (.ok v)) :
    env.Computes opcode operands v :=
  fun depth i s below hopcode => h depth i s below hopcode

theorem Environment.Replaces.failsByZero {detail : String}
    (h : env.Replaces opcode operands (.error (divisionByZero detail))) :
    env.FailsByZero opcode operands :=
  fun depth i s below hopcode => ⟨detail, _, h depth i s below hopcode⟩

theorem replaces_intBinary (env : Environment) (op : IntOp) (a b : Int32) :
    env.Replaces (.intBinary op) [.int a, .int b] ((op.apply a b).map .int) := by
  intro depth i s below hopcode
  have hpops : Exec.intBinary op (s.withStack (.int b :: .int a :: below)) =
      (Effect.ofExcept (op.apply a b) >>= fun r => Exec.pushNext (.int r)) (s.withStack below) :=
    rfl
  simp only [Environment.execute, hopcode]
  refine hpops.trans ?_
  cases op.apply a b <;> rfl

theorem replaces_longBinary (env : Environment) (op : LongOp) (a b : Int64) :
    env.Replaces (.longBinary op) [.long a, .long b] ((op.apply a b).map .long) := by
  intro depth i s below hopcode
  have hpops : Exec.longBinary op (s.withStack (.long b :: .long a :: below)) =
      (Effect.ofExcept (op.apply a b) >>= fun r => Exec.pushNext (.long r)) (s.withStack below) :=
    rfl
  simp only [Environment.execute, hopcode]
  refine hpops.trans ?_
  cases op.apply a b <;> rfl

theorem computes_of_execute (m : Exec Step) {v : Value}
    (hexecute : ∀ depth (i : Instruction), i.opcode = opcode → env.execute depth i = m)
    (hrun : ∀ s below, m (Scene.withStack s (operands.reverse ++ below)) =
      (.ok .next, s.withStack (v :: below))) : env.Computes opcode operands v := by
  intro depth i s below hopcode
  rw [hexecute depth i hopcode]
  exact hrun s below

end

/-! ### Wrapping arithmetic of a width -/

/-- The instructions that calculate with numbers of one width. -/
structure ArithmeticCodes where
  add : Opcode
  sub : Opcode
  mul : Opcode
  div : Opcode
  rem : Opcode
  neg : Opcode

def intCodes : ArithmeticCodes :=
  ⟨.intBinary .add, .intBinary .sub, .intBinary .mul, .intBinary .div, .intBinary .rem, .ineg⟩

def longCodes : ArithmeticCodes :=
  ⟨.longBinary .add, .longBinary .sub, .longBinary .mul, .longBinary .div, .longBinary .rem, .lneg⟩

/-- The instructions give the exact results, reduced to the signed numbers of `width` bits, and fail
for a division by zero only. -/
structure Environment.Wraps (env : Environment) (codes : ArithmeticCodes) {T : Type}
    (value : T → Value) (number : T → Int) (width : Nat) : Prop where
  add : ∀ a b, ∃ r, env.Computes codes.add [value a, value b] (value r) ∧
    number r = (number a + number b).bmod (2 ^ width)
  sub : ∀ a b, ∃ r, env.Computes codes.sub [value a, value b] (value r) ∧
    number r = (number a - number b).bmod (2 ^ width)
  mul : ∀ a b, ∃ r, env.Computes codes.mul [value a, value b] (value r) ∧
    number r = (number a * number b).bmod (2 ^ width)
  neg : ∀ a, ∃ r, env.Computes codes.neg [value a] (value r) ∧
    number r = (-number a).bmod (2 ^ width)
  divide : ∀ a b, number b ≠ 0 → ∃ q r, env.Computes codes.div [value a, value b] (value q) ∧
    env.Computes codes.rem [value a, value b] (value r) ∧
    Division width (number a) (number b) (number q) (number r)
  divideByZero : ∀ a b, number b = 0 → env.FailsByZero codes.div [value a, value b] ∧
    env.FailsByZero codes.rem [value a, value b]

theorem wraps_int (env : Environment) : env.Wraps intCodes .int Int32.toInt 32 where
  add a b := ⟨a + b, (replaces_intBinary env .add a b).computes, Int32.toInt_add a b⟩
  sub a b := ⟨a - b, (replaces_intBinary env .sub a b).computes, Int32.toInt_sub a b⟩
  mul a b := ⟨a * b, (replaces_intBinary env .mul a b).computes, Int32.toInt_mul a b⟩
  neg a := by
    refine ⟨-a, computes_of_execute (Exec.intUnary fun a => .int (-a)) ?_ fun s below => rfl,
      Int32.toInt_neg a⟩
    intro depth i hopcode
    simp only [Environment.execute, hopcode, intCodes]
  divide a b hb := by
    have hne : b ≠ 0 := by
      rintro rfl
      exact hb rfl
    have hdiv := replaces_intBinary env .div a b
    have hrem := replaces_intBinary env .rem a b
    simp only [IntOp.apply, if_neg hne] at hdiv hrem
    refine ⟨a / b, a % b, hdiv.computes, hrem.computes, ?_⟩
    rw [Int32.toInt_div, Int32.toInt_mod]
    exact division (by decide) a.toInt hb
  divideByZero a b hb := by
    have hzero : b = 0 := Int32.toInt_inj.mp hb
    have hdiv := replaces_intBinary env .div a b
    have hrem := replaces_intBinary env .rem a b
    simp only [IntOp.apply, if_pos hzero] at hdiv hrem
    exact ⟨hdiv.failsByZero, hrem.failsByZero⟩

theorem wraps_long (env : Environment) : env.Wraps longCodes .long Int64.toInt 64 where
  add a b := ⟨a + b, (replaces_longBinary env .add a b).computes, Int64.toInt_add a b⟩
  sub a b := ⟨a - b, (replaces_longBinary env .sub a b).computes, Int64.toInt_sub a b⟩
  mul a b := ⟨a * b, (replaces_longBinary env .mul a b).computes, Int64.toInt_mul a b⟩
  neg a := by
    refine ⟨-a, computes_of_execute (Exec.longUnary fun a => .long (-a)) ?_ fun s below => rfl,
      Int64.toInt_neg a⟩
    intro depth i hopcode
    simp only [Environment.execute, hopcode, longCodes]
  divide a b hb := by
    have hne : b ≠ 0 := by
      rintro rfl
      exact hb rfl
    have hdiv := replaces_longBinary env .div a b
    have hrem := replaces_longBinary env .rem a b
    simp only [LongOp.apply, if_neg hne] at hdiv hrem
    refine ⟨a / b, a % b, hdiv.computes, hrem.computes, ?_⟩
    rw [Int64.toInt_div, Int64.toInt_mod]
    exact division (by decide) a.toInt hb
  divideByZero a b hb := by
    have hzero : b = 0 := Int64.toInt_inj.mp hb
    have hdiv := replaces_longBinary env .div a b
    have hrem := replaces_longBinary env .rem a b
    simp only [LongOp.apply, if_pos hzero] at hdiv hrem
    exact ⟨hdiv.failsByZero, hrem.failsByZero⟩

/-! ### The instruction set -/

/-- The `int` shifts multiply and divide by the power of two that the low five bits of the distance
give. -/
structure Environment.Shifts (env : Environment) (a b : Int32) : Prop where
  left : ∃ r : Int32, env.Computes (.intBinary .shl) [.int a, .int b] (.int r) ∧
    r.toInt = (a.toInt * 2 ^ shiftDistance b).bmod (2 ^ 32)
  right : ∃ r : Int32, env.Computes (.intBinary .shr) [.int a, .int b] (.int r) ∧
    r.toInt = a.toInt.fdiv (2 ^ shiftDistance b)
  unsigned : ∃ r : Int32, env.Computes (.intBinary .ushr) [.int a, .int b] (.int r) ∧
    r.toInt = ((a.toInt % 2 ^ 32).fdiv (2 ^ shiftDistance b)).bmod (2 ^ 32)

theorem shifts_int (env : Environment) (a b : Int32) : env.Shifts a b where
  left := ⟨_, (replaces_intBinary env .shl a b).computes, toInt_shiftLeft_lowBits a b⟩
  right := ⟨_, (replaces_intBinary env .shr a b).computes, toInt_shiftRight_lowBits a b⟩
  unsigned := ⟨_, (replaces_intBinary env .ushr a b).computes, toInt_unsignedShift a b⟩

/-- Conversions cut a number down to the bits of the narrower type, and a wider type holds it as it
is. -/
structure Environment.Converts (env : Environment) (a : Int32) (b : Int64) : Prop where
  toByte : ∃ r : Int32, env.Computes .i2b [.int a] (.int r) ∧ r.toInt = a.toInt.bmod (2 ^ 8)
  toShort : ∃ r : Int32, env.Computes .i2s [.int a] (.int r) ∧ r.toInt = a.toInt.bmod (2 ^ 16)
  toChar : ∃ r : Int32, env.Computes .i2c [.int a] (.int r) ∧ r.toInt = a.toInt % 2 ^ 16
  toLong : ∃ r : Int64, env.Computes .i2l [.int a] (.long r) ∧ r.toInt = a.toInt
  toInt : ∃ r : Int32, env.Computes .l2i [.long b] (.int r) ∧ r.toInt = b.toInt.bmod (2 ^ 32)

theorem converts (env : Environment) (a : Int32) (b : Int64) : env.Converts a b where
  toByte := by
    refine ⟨intToByte a, computes_of_execute (Exec.intUnary fun a => .int (intToByte a)) ?_
      fun s below => rfl, ?_⟩
    · intro depth i hopcode
      simp only [Environment.execute, hopcode]
    · rw [intToByte, Int8.toInt_toInt32, Int32.toInt_toInt8]
  toShort := by
    refine ⟨intToShort a, computes_of_execute (Exec.intUnary fun a => .int (intToShort a)) ?_
      fun s below => rfl, ?_⟩
    · intro depth i hopcode
      simp only [Environment.execute, hopcode]
    · rw [intToShort, Int16.toInt_toInt32, Int32.toInt_toInt16]
  toChar := by
    refine ⟨intToChar a, computes_of_execute (Exec.intUnary fun a => .int (intToChar a)) ?_
      fun s below => rfl, toInt_intToChar a⟩
    intro depth i hopcode
    simp only [Environment.execute, hopcode]
  toLong := by
    refine ⟨a.toInt64, computes_of_execute (Exec.intUnary fun a => .long a.toInt64) ?_
      fun s below => rfl, Int32.toInt_toInt64 a⟩
    intro depth i hopcode
    simp only [Environment.execute, hopcode]
  toInt := by
    refine ⟨b.toInt32, computes_of_execute (Exec.longUnary fun a => .int a.toInt32) ?_
      fun s below => rfl, Int64.toInt_toInt32 b⟩
    intro depth i hopcode
    simp only [Environment.execute, hopcode]

theorem computes_longCompare (env : Environment) (a b : Int64) :
    env.Computes .lcmp [.long a, .long b] (.int (compareLongs a b)) := by
  refine computes_of_execute Exec.longCompare ?_ fun s below => rfl
  intro depth i hopcode
  simp only [Environment.execute, hopcode]

theorem execute_increment (env : Environment) (depth : Nat) {i : Instruction} {s : Scene}
    {n : Int32} (hopcode : i.opcode = .iinc)
    (hslot : s.frame.slots[i.index.toNat]? = some (.int n)) :
    ∃ t, env.execute depth i s = (.ok .next, t) ∧
      t.frame = { s.frame with
        slots := s.frame.slots.setIfInBounds i.index.toNat (.int (n + i.value)) } := by
  have hsize : i.index.toNat < s.frame.slots.size := by
    by_contra hover
    rw [Array.getElem?_eq_none (Nat.le_of_not_lt hover)] at hslot
    cases hslot
  have hread : Frame.getLocalKind i.index.toNat (some .int) s.frame = (.ok (.int n), s.frame) := by
    rw [Frame.getLocalKind, Effect.bind_apply, Frame.getLocal, if_neg (by omega)]
    simp only [Int.toNat_natCast, hslot]
    rfl
  have hwrite : Frame.setLocal i.index.toNat (.int (n + i.value)) s.frame =
      (.ok (), { s.frame with
        slots := s.frame.slots.setIfInBounds i.index.toNat (.int (n + i.value)) }) := by
    have hroom : ¬ ((i.index.toNat : Int) < 0 ∨
        (s.frame.slots.size : Int) < i.index.toNat + (1 : Nat)) := by omega
    exact if_neg hroom
  simp only [Environment.execute, hopcode, Exec.increment]
  rw [Effect.bind_apply]
  simp only [Scene.onFrame, Effect.zoom, hread]
  rw [Effect.bind_apply]
  simp only [Scene.store, Value.toInt32, hwrite]
  cases s.frame.observed <;> exact ⟨_, rfl, rfl⟩

/-- The arithmetic instructions are those of two's complement numbers, for all operands, and whatever
makes an `int`, its number is one of 32 bits. -/
theorem Environment.integer_arithmetic (env : Environment) :
    env.Wraps intCodes .int Int32.toInt 32 ∧
    env.Wraps longCodes .long Int64.toInt 64 ∧
    (∀ a b : Int32, env.Shifts a b) ∧
    (∀ a b : Int64, ∃ r : Int32, env.Computes .lcmp [.long a, .long b] (.int r) ∧
      r.toInt = (a.toInt - b.toInt).sign) ∧
    (∀ (a : Int32) (b : Int64), env.Converts a b) ∧
    (∀ (depth : Nat) (i : Instruction) (s : Scene) (n : Int32), i.opcode = .iinc →
      s.frame.slots[i.index.toNat]? = some (.int n) →
      ∃ (r : Int32) (t : Scene), env.execute depth i s = (.ok .next, t) ∧
        t.frame = { s.frame with slots := s.frame.slots.setIfInBounds i.index.toNat (.int r) } ∧
        r.toInt = (n.toInt + i.value.toInt).bmod (2 ^ 32)) ∧
    ∀ v : Value, v.kind? = some .int →
      ∃ n : Int32, v = .int n ∧ -2 ^ 31 ≤ n.toInt ∧ n.toInt < 2 ^ 31 := by
  refine ⟨wraps_int env, wraps_long env, shifts_int env, ?_, converts env, ?_, ?_⟩
  · intro a b
    exact ⟨_, computes_longCompare env a b, toInt_compareLongs a b⟩
  · intro depth i s n hopcode hslot
    obtain ⟨t, hexecute, hframe⟩ := execute_increment env depth hopcode hslot
    exact ⟨_, t, hexecute, hframe, Int32.toInt_add n i.value⟩
  · intro v hkind
    cases v with
    | int n => exact ⟨n, rfl, n.le_toInt, n.toInt_lt⟩
    | none | long _ | float _ | double _ | null | reference _ => cases hkind

/-- The least `int` divided by -1 is itself, without a remainder. -/
theorem integer_arithmetic_least :
    let env : Environment := ⟨.empty, .standard, 1, false⟩
    ∃ q r : Int32,
      env.Computes (.intBinary .div) [.int (-2147483648), .int (-1)] (.int q) ∧
      env.Computes (.intBinary .rem) [.int (-2147483648), .int (-1)] (.int r) ∧
      q.toInt = -2147483648 ∧ r.toInt = 0 := by
  intro env
  obtain ⟨q, r, hdiv, hrem, hdivision⟩ :=
    env.integer_arithmetic.1.divide (-2147483648) (-1) (by decide)
  obtain ⟨hq, hr⟩ := hdivision.least rfl rfl
  exact ⟨q, r, hdiv, hrem, hq, hr⟩

end Jvm
