import Mathlib.Algebra.GroupWithZero.Nat
import Jvm.Proofs.Machine.Balance
import Jvm.Proofs.Machine.CallOperands

/-!
# The calling convention

A caller leaves the receiver of a call and above it the arguments, the last one on top. The call
takes them off in reverse and checks each against the kind of its parameter; the frame of the callee
has the receiver in slot 0 and the arguments behind it, each behind the slots of the parameters
before its own.
-/

namespace Jvm

/-! ### Values of the kinds asked for, on top of a stack -/

namespace Frame

variable {f : Frame} {v : Value} {below : List Value} {kind : Option Kind}

theorem pop_cons (hstack : f.stack = v :: below) : pop f = (.ok v, { f with stack := below }) := by
  simp only [pop, hstack]

theorem popKind_cons (hstack : f.stack = v :: below) :
    popKind kind f = (v.expect kind, { f with stack := below }) := by
  rw [popKind, Effect.bind_apply, pop_cons hstack]
  rfl

theorem popKind_nil (hstack : f.stack = []) : popKind kind f = (.error f.underflow, f) := by
  simp only [popKind, Effect.bind_apply, pop, hstack]

end Frame

theorem Value.expect_of_kind {v : Value} {kind : Option Kind} (h : v.kind? = kind) :
    v.expect kind = .ok v := by
  rw [expect, if_pos h]

theorem Value.expect_of_other {v : Value} {kind : Option Kind} (h : v.kind? ≠ kind) :
    ∃ detail, v.expect kind = .error (typeMismatch detail) := by
  rw [expect, if_neg h]
  exact ⟨_, rfl⟩

/-! ### The operands of a call -/

def Scene.withStack (s : Scene) (stack : List Value) : Scene :=
  { s with frame := { s.frame with stack } }

namespace Exec

open Scene (onFrame)

theorem popArgumentsFrom_append {front : List FieldType} {taken : List Value}
    (htaken : Arguments front taken) (types : List FieldType) (acc : List Value) {f : Frame}
    {below : List Value} (hstack : f.stack = taken ++ below) :
    popArgumentsFrom (front ++ types) acc f =
      popArgumentsFrom types (taken.reverse ++ acc) { f with stack := below } := by
  induction htaken generalizing acc f with
  | nil =>
    obtain rfl : f.stack = below := hstack
    rfl
  | @cons t v front taken hkind htaken ih =>
    have hpop : Frame.popKind (some t.kind) f = (.ok v, { f with stack := taken ++ below }) := by
      rw [Frame.popKind_cons hstack, Value.expect_of_kind hkind, List.append_eq]
    rw [List.cons_append, popArgumentsFrom, Effect.bind_apply, hpop]
    dsimp only
    rw [ih (v :: acc) rfl, List.reverse_cons, List.append_assoc]
    rfl

variable {r : MemberRef} {d : MethodDescriptor} {first last : List FieldType}
  {values below : List Value} {s : Scene}

/-- The arguments of the last parameters lie on top and come off first. -/
theorem popArguments_eq (hd : MethodDescriptor.parse r.descriptor = .ok d)
    (hparameters : d.parameters = first ++ last) (hvalues : Arguments last values)
    (hstack : s.frame.stack = values.reverse ++ below) :
    popArguments r.descriptor s =
      (onFrame (popArgumentsFrom first.reverse values) >>= fun arguments =>
        pure (arguments, d.parameters)) (s.withStack below) := by
  have htypes : d.parameters.reverse = last.reverse ++ first.reverse := by
    rw [hparameters, List.reverse_append]
  have htaken : Arguments last.reverse values.reverse := List.forall₂_reverse_iff.mpr hvalues
  have hpop : onFrame (popArgumentsFrom d.parameters.reverse []) s =
      onFrame (popArgumentsFrom first.reverse values) (s.withStack below) := by
    simp only [onFrame, Effect.zoom, htypes]
    rw [popArgumentsFrom_append htaken first.reverse [] hstack, List.reverse_reverse,
      List.append_nil]
    rfl
  rw [popArguments, hd, Effect.bind_apply]
  simp only [Effect.ofExcept]
  rw [Effect.bind_apply, hpop, Effect.bind_apply]

theorem popArguments_of_arguments (hd : MethodDescriptor.parse r.descriptor = .ok d)
    (hvalues : Arguments d.parameters values)
    (hstack : s.frame.stack = values.reverse ++ below) :
    popArguments r.descriptor s = (.ok (values, d.parameters), s.withStack below) := by
  have hall : d.parameters = [] ++ d.parameters := rfl
  exact popArguments_eq hd hall hvalues hstack

theorem popArguments_mismatch {t : FieldType} {v : Value}
    (hd : MethodDescriptor.parse r.descriptor = .ok d)
    (hparameters : d.parameters = first ++ t :: last) (hvalues : Arguments last values)
    (hstack : s.frame.stack = values.reverse ++ v :: below) (hkind : v.kind? ≠ some t.kind) :
    ∃ detail, popArguments r.descriptor s =
      (.error (typeMismatch detail), s.withStack below) := by
  obtain ⟨detail, hexpect⟩ := Value.expect_of_other hkind
  refine ⟨detail, ?_⟩
  have hsplit : d.parameters = (first ++ [t]) ++ last := by simp [hparameters]
  have hpop : Frame.popKind (some t.kind) (s.withStack (v :: below)).frame =
      (.error (typeMismatch detail), (s.withStack below).frame) := by
    rw [Frame.popKind_cons (f := (s.withStack (v :: below)).frame) rfl, hexpect]
    rfl
  rw [popArguments_eq hd hsplit hvalues hstack, List.reverse_append, List.reverse_singleton,
    List.singleton_append, Effect.bind_apply]
  simp only [onFrame, Effect.zoom, popArgumentsFrom, Effect.bind_apply, hpop]
  rfl

theorem popArguments_underflow {t : FieldType}
    (hd : MethodDescriptor.parse r.descriptor = .ok d)
    (hparameters : d.parameters = first ++ t :: last) (hvalues : Arguments last values)
    (hstack : s.frame.stack = values.reverse) :
    popArguments r.descriptor s = (.error s.frame.underflow, s.withStack []) := by
  have hsplit : d.parameters = (first ++ [t]) ++ last := by simp [hparameters]
  have hpop : Frame.popKind (some t.kind) (s.withStack []).frame =
      (.error s.frame.underflow, (s.withStack []).frame) :=
    Frame.popKind_nil rfl
  have htop : s.frame.stack = values.reverse ++ [] := by rw [hstack, List.append_nil]
  rw [popArguments_eq hd hsplit hvalues htop, List.reverse_append, List.reverse_singleton,
    List.singleton_append, Effect.bind_apply]
  simp only [onFrame, Effect.zoom, popArgumentsFrom, Effect.bind_apply, hpop]

theorem popReceiver_reference (r : MemberRef) (s : Scene) (target : Reference)
    (below : List Value) :
    popReceiver r (s.withStack (.reference target :: below)) = (.ok target, s.withStack below) := by
  rfl

theorem popReceiver_mismatch (r : MemberRef) (s : Scene) {v : Value}
    (hkind : v.kind? ≠ some .reference) (below : List Value) :
    ∃ detail, popReceiver r (s.withStack (v :: below)) =
      (.error (typeMismatch detail), s.withStack below) := by
  obtain ⟨detail, hexpect⟩ := Value.expect_of_other hkind
  refine ⟨detail, ?_⟩
  have hpop : Frame.popKind (some .reference) (s.withStack (v :: below)).frame =
      (.error (typeMismatch detail), (s.withStack below).frame) := by
    rw [Frame.popKind_cons (f := (s.withStack (v :: below)).frame) rfl, hexpect]
    rfl
  rw [popReceiver, Effect.bind_apply]
  simp only [onFrame, Effect.zoom, Frame.popReference, Effect.bind_apply, hpop]
  rfl

theorem popReceiver_underflow (r : MemberRef) (s : Scene) :
    popReceiver r (s.withStack []) = (.error s.frame.underflow, s.withStack []) := by
  rfl

end Exec

/-! ### The slots of the callee -/

theorem FieldType.slots_pos (t : FieldType) : 0 < t.slots := by
  unfold slots
  split <;> omega

def FieldType.slotsBefore (types : List FieldType) (i : Nat) : Nat :=
  ((types.take i).map slots).sum

theorem MethodDescriptor.parameterSlots_eq (d : MethodDescriptor) :
    d.parameterSlots = (d.parameters.map FieldType.slots).sum :=
  List.sum_eq_foldl.symm

namespace Frame

open FieldType (slotsBefore)

variable {name : String} {types : List FieldType} {values : List Value} {slots : Array Value}

theorem bindArguments_fits (name : String) (values : List Value) (i slot : Nat)
    (hfits : slot + (types.map FieldType.slots).sum ≤ slots.size) :
    ∃ out, bindArguments name i slot types values slots = .ok out ∧ out.size = slots.size := by
  induction types generalizing i slot values slots with
  | nil => exact ⟨slots, by unfold bindArguments; rfl, rfl⟩
  | cons t types ih =>
    cases values with
    | nil => exact ⟨slots, by unfold bindArguments; rfl, rfl⟩
    | cons v values =>
      simp only [List.map_cons, List.sum_cons] at hfits
      have hroom : ¬ slots.size < slot + t.slots := by omega
      have hrest : slot + t.slots + (types.map FieldType.slots).sum ≤
          (slots.setIfInBounds slot v).size := by
        rw [Array.size_setIfInBounds]
        omega
      obtain ⟨out, hbind, hsize⟩ := ih values (i + 1) (slot + t.slots) hrest
      refine ⟨out, ?_, ?_⟩
      · rw [bindArguments, if_neg hroom]
        exact hbind
      · rw [hsize, Array.size_setIfInBounds]

/-- Too few slots are noticed, at the latest at the last parameter. -/
theorem bindArguments_overflows (name : String) (i slot : Nat)
    (hlength : values.length = types.length) (hslot : slot ≤ slots.size)
    (hover : slots.size < slot + (types.map FieldType.slots).sum) :
    ∃ detail, bindArguments name i slot types values slots =
      .error (localOutOfBounds detail) := by
  induction types generalizing i slot values slots with
  | nil =>
    simp only [List.map_nil, List.sum_nil] at hover
    omega
  | cons t types ih =>
    cases values with
    | nil => simp at hlength
    | cons v values =>
      simp only [List.map_cons, List.sum_cons] at hover
      rw [bindArguments]
      split
      · exact ⟨_, rfl⟩
      · rename_i hroom
        refine ih (i + 1) (slot + t.slots) (by simpa using hlength) ?_ ?_
        · rw [Array.size_setIfInBounds]
          omega
        · rw [Array.size_setIfInBounds]
          omega

theorem bindArguments_frame {out : Array Value} (i slot j : Nat)
    (h : bindArguments name i slot types values slots = .ok out)
    (hj : ∀ k < values.length, j ≠ slot + slotsBefore types k) : out[j]? = slots[j]? := by
  induction types generalizing i slot values slots with
  | nil =>
    unfold bindArguments at h
    cases h
    rfl
  | cons t types ih =>
    cases values with
    | nil =>
      unfold bindArguments at h
      cases h
      rfl
    | cons v values =>
      rw [bindArguments] at h
      split at h
      · cases h
      · have hhead : j ≠ slot := by
          have hzero := hj 0 (by simp)
          simpa [slotsBefore] using hzero
        have hrest : ∀ k < values.length, j ≠ slot + t.slots + slotsBefore types k := by
          intro k hk
          have hsucc := hj (k + 1) (by simpa using hk)
          simpa [slotsBefore, Nat.add_assoc] using hsucc
        rw [ih (i + 1) (slot + t.slots) h hrest, Array.getElem?_setIfInBounds_ne hhead.symm]

theorem bindArguments_at {out : Array Value} (i slot k : Nat) {v : Value}
    (hlength : values.length = types.length)
    (h : bindArguments name i slot types values slots = .ok out) (hv : values[k]? = some v) :
    out[slot + slotsBefore types k]? = some v := by
  induction types generalizing i slot k values slots with
  | nil =>
    rw [List.length_nil, List.length_eq_zero_iff] at hlength
    simp [hlength] at hv
  | cons t types ih =>
    cases values with
    | nil => simp at hlength
    | cons u values =>
      rw [bindArguments] at h
      split at h
      · cases h
      · rename_i hroom
        have hpos := t.slots_pos
        cases k with
        | zero =>
          -- The slots of the later arguments lie behind this one.
          obtain rfl : u = v := by simpa using hv
          have hbehind : ∀ k < values.length, slot ≠ slot + t.slots + slotsBefore types k := by
            intro k _
            omega
          have hframe := bindArguments_frame (i + 1) (slot + t.slots) slot h hbehind
          have hslot : slot < slots.size := by omega
          simp only [slotsBefore, List.take_zero, List.map_nil, List.sum_nil, Nat.add_zero]
          rw [hframe, Array.getElem?_setIfInBounds_self, if_pos hslot]
        | succ k =>
          have hrest := ih (i + 1) (slot + t.slots) k (by simpa using hlength) h (by simpa using hv)
          simpa [slotsBefore, Nat.add_assoc] using hrest

/-- The slot of argument `i`, behind that of the receiver. -/
def argumentSlot (receiver : Option Value) (parameters : List FieldType) (i : Nat) : Nat :=
  receiver.toList.length + slotsBefore parameters i

/-- The locals are the receiver in slot 0, the arguments in theirs and nothing else. -/
structure Binds (f : Frame) (receiver? : Option Value) (parameters : List FieldType)
    (arguments : List Value) : Prop where
  receiver : ∀ v, receiver? = some v → f.slots[0]? = some v
  argument : ∀ i v, arguments[i]? = some v → f.slots[argumentSlot receiver? parameters i]? = some v
  other : ∀ j, j < f.slots.size → (receiver?.isSome → j ≠ 0) →
    (∀ i < arguments.length, j ≠ argumentSlot receiver? parameters i) → f.slots[j]? = some .none

theorem size_receiverSlots (receiver : Option Value) (size : Nat) :
    (receiverSlots receiver size).size = size := by
  cases receiver <;> simp [receiverSlots]

theorem receiverSlots_zero {receiver : Option Value} {size : Nat}
    (hroom : receiver.toList.length ≤ size) {v : Value} (hv : receiver = some v) :
    (receiverSlots receiver size)[0]? = some v := by
  subst hv
  have hpos : 0 < size := hroom
  simp [receiverSlots, hpos]

theorem receiverSlots_other {receiver : Option Value} {size j : Nat} (hj : j < size)
    (hzero : receiver.isSome → j ≠ 0) : (receiverSlots receiver size)[j]? = some .none := by
  cases receiver with
  | none => simp [receiverSlots, hj]
  | some v =>
    have hne : (0 : Nat) ≠ j := (hzero rfl).symm
    rw [receiverSlots, Array.getElem?_setIfInBounds_ne hne]
    simp [hj]

variable {cls : Class} {method : Method} {code : Code} {parameters : List FieldType}
  {arguments : List Value} {receiver : Option Value} {serial : Nat}
  {observed : Bool}

theorem make_eq (hcode : method.code? = some code) (hlength : arguments.length = parameters.length)
    (hroom : receiver.toList.length ≤ code.maxLocals.toNat) :
    make cls method receiver parameters arguments serial observed =
      bindArguments (methodLabel cls method) 0 receiver.toList.length parameters arguments
          (receiverSlots receiver code.maxLocals.toNat) >>= fun slots =>
        .ok { cls, method, code, resumePc := 0, slots, stack := [], serial, observed } := by
  unfold make
  simp only [hcode, hlength, ne_eq, not_true_eq_false, if_false, Array.size_replicate]
  cases receiver with
  | none => rfl
  | some v =>
    have hpos : code.maxLocals.toNat ≠ 0 := Nat.ne_of_gt hroom
    dsimp only
    rw [if_neg hpos]
    rfl

theorem make_of_no_room (hcode : method.code? = some code)
    (hlength : arguments.length = parameters.length)
    (hroom : code.maxLocals.toNat < receiver.toList.length) :
    ∃ detail, make cls method receiver parameters arguments serial observed =
      .error (localOutOfBounds detail) := by
  cases receiver with
  | none => exact absurd hroom (Nat.not_lt_zero _)
  | some v =>
    have hzero : code.maxLocals.toNat = 0 := Nat.lt_one_iff.mp hroom
    unfold make
    simp only [hcode, hlength, ne_eq, not_true_eq_false, if_false, Array.size_replicate, hzero,
      if_true]
    exact ⟨_, rfl⟩

theorem make_binds (hcode : method.code? = some code)
    (hlength : arguments.length = parameters.length)
    (hfits : receiver.toList.length + (parameters.map FieldType.slots).sum ≤ code.maxLocals.toNat) :
    ∃ f, make cls method receiver parameters arguments serial observed = .ok f ∧
      f.slots.size = code.maxLocals.toNat ∧ f.Binds receiver parameters arguments := by
  have hroom : receiver.toList.length ≤ code.maxLocals.toNat := by omega
  have hfits' : receiver.toList.length + (parameters.map FieldType.slots).sum ≤
      (receiverSlots receiver code.maxLocals.toNat).size := by
    rwa [size_receiverSlots]
  obtain ⟨out, hbind, hsize⟩ :=
    bindArguments_fits (methodLabel cls method) arguments 0 receiver.toList.length hfits'
  rw [size_receiverSlots] at hsize
  refine ⟨{ cls, method, code, resumePc := 0, slots := out, stack := [], serial, observed }, ?_,
    hsize, ?_⟩
  · rw [make_eq hcode hlength hroom, hbind]
    rfl
  · refine ⟨fun v hv => ?_, fun i v hv => ?_, fun j hj hzero hother => ?_⟩
    · -- The arguments lie behind the receiver.
      have hbehind : ∀ k < arguments.length,
          0 ≠ receiver.toList.length + slotsBefore parameters k := by
        intro k _
        rw [hv, Option.toList_some, List.length_singleton]
        omega
      have hframe := bindArguments_frame 0 _ 0 hbind hbehind
      exact hframe.trans (receiverSlots_zero hroom hv)
    · exact bindArguments_at 0 _ i hlength hbind hv
    · have hframe := bindArguments_frame 0 _ j hbind hother
      exact hframe.trans (receiverSlots_other (hsize ▸ hj) hzero)

theorem make_overflows (hcode : method.code? = some code)
    (hlength : arguments.length = parameters.length)
    (hover : code.maxLocals.toNat < receiver.toList.length + (parameters.map FieldType.slots).sum) :
    ∃ detail, make cls method receiver parameters arguments serial observed =
      .error (localOutOfBounds detail) := by
  by_cases hroom : receiver.toList.length ≤ code.maxLocals.toNat
  · have hsize := size_receiverSlots receiver code.maxLocals.toNat
    rw [← hsize] at hroom hover
    obtain ⟨detail, hbind⟩ :=
      bindArguments_overflows (methodLabel cls method) 0 receiver.toList.length hlength hroom hover
    rw [hsize] at hroom
    refine ⟨detail, ?_⟩
    rw [make_eq hcode hlength hroom, hbind]
    rfl
  · exact make_of_no_room hcode hlength (by omega)

end Frame

/-- Let the stack of a caller hold the arguments of a call in order, each of the kind of its
parameter, and below them the receiver if there is one. Then the call takes just these off the
stack. With enough slots for them the frame of the callee has the receiver in slot 0, each argument
behind the slots of the parameters before its own, and nothing in the other slots; with fewer slots
it cannot be made. An operand of another kind, or none, is noticed from the top. -/
theorem calling_convention {r : MemberRef} {d : MethodDescriptor}
    (hd : MethodDescriptor.parse r.descriptor = .ok d) (s : Scene) :
    (∀ (arguments : List Value) (target? : Option Reference) (rest : List Value),
      Arguments d.parameters arguments →
      s.frame.stack = arguments.reverse ++ ((target?.map .reference).toList ++ rest) →
        Exec.popArguments r.descriptor s = (.ok (arguments, d.parameters),
          s.withStack ((target?.map .reference).toList ++ rest)) ∧
        (∀ target, target? = some target →
          Exec.popReceiver r (s.withStack ((target?.map .reference).toList ++ rest)) =
            (.ok target, s.withStack rest)) ∧
        ∀ cls method code serial observed, method.code? = some code →
          (target?.toList.length + d.parameterSlots ≤ code.maxLocals.toNat →
            ∃ f, Frame.make cls method (target?.map .reference) d.parameters arguments serial
                observed = .ok f ∧
              f.slots.size = code.maxLocals.toNat ∧
              f.Binds (target?.map .reference) d.parameters arguments) ∧
          (code.maxLocals.toNat < target?.toList.length + d.parameterSlots →
            ∃ detail,
              Frame.make cls method (target?.map .reference) d.parameters arguments serial
                  observed = .error (localOutOfBounds detail))) ∧
    (∀ first t last values v below, d.parameters = first ++ t :: last → Arguments last values →
      s.frame.stack = values.reverse ++ v :: below → v.kind? ≠ some t.kind →
        ∃ detail, Exec.popArguments r.descriptor s =
          (.error (typeMismatch detail), s.withStack below)) ∧
    (∀ first t last values, d.parameters = first ++ t :: last → Arguments last values →
      s.frame.stack = values.reverse →
        Exec.popArguments r.descriptor s = (.error s.frame.underflow, s.withStack [])) ∧
    (∀ v below, v.kind? ≠ some .reference →
      ∃ detail, Exec.popReceiver r (s.withStack (v :: below)) =
        (.error (typeMismatch detail), s.withStack below)) ∧
    Exec.popReceiver r (s.withStack []) = (.error s.frame.underflow, s.withStack []) := by
  refine ⟨?_, ?_, ?_, ?_, ?_⟩
  · intro arguments target? rest harguments hstack
    refine ⟨Exec.popArguments_of_arguments hd harguments hstack, ?_, ?_⟩
    · rintro target rfl
      exact Exec.popReceiver_reference r s target rest
    · intro cls method code serial observed hcode
      have hlength : arguments.length = d.parameters.length := harguments.length_eq.symm
      have hreceiver : target?.toList.length =
          (target?.map Value.reference).toList.length := by
        cases target? <;> rfl
      rw [hreceiver, d.parameterSlots_eq]
      exact ⟨Frame.make_binds hcode hlength, Frame.make_overflows hcode hlength⟩
  · intro first t last values v below hparameters hvalues hstack hkind
    exact Exec.popArguments_mismatch hd hparameters hvalues hstack hkind
  · intro first t last values hparameters hvalues hstack
    exact Exec.popArguments_underflow hd hparameters hvalues hstack
  · intro v below hkind
    exact Exec.popReceiver_mismatch r s hkind below
  · exact Exec.popReceiver_underflow r s

def conventionMethod (maxLocals : UInt16) : Method :=
  ⟨1, 7, 4, [Thread.sampleBody 1 maxLocals [0x1B, 0xAC]], "k", "(IJ)I"⟩

/-- A caller with the operands of such a call above another value. -/
def conventionScene : Scene :=
  ⟨{ Thread.sampleFrame with
      stack := [.long 1, .int 3, .reference (.object 0), .int 2] }, .empty⟩

-- The receiver, the `int` and the `long` take four slots.
theorem calling_convention_sample :
    MethodDescriptor.parse "(IJ)I" = .ok ⟨[⟨.int, 0⟩, ⟨.long, 0⟩], some ⟨.int, 0⟩⟩ ∧
      Exec.popArguments "(IJ)I" conventionScene =
        (.ok ([.int 3, .long 1], [⟨.int, 0⟩, ⟨.long, 0⟩]),
          conventionScene.withStack [.reference (.object 0), .int 2]) ∧
      (∃ f, Frame.make ⟨Thread.sample, []⟩ (conventionMethod 4) (some (.reference (.object 0)))
          [⟨.int, 0⟩, ⟨.long, 0⟩] [.int 3, .long 1] 0 false = .ok f ∧
        f.Binds (some (.reference (.object 0))) [⟨.int, 0⟩, ⟨.long, 0⟩] [.int 3, .long 1]) ∧
      ∃ detail, Frame.make ⟨Thread.sample, []⟩ (conventionMethod 3)
          (some (.reference (.object 0))) [⟨.int, 0⟩, ⟨.long, 0⟩] [.int 3, .long 1] 0 false =
        .error (localOutOfBounds detail) := by
  have hd : MethodDescriptor.parse "(IJ)I" = .ok ⟨[⟨.int, 0⟩, ⟨.long, 0⟩], some ⟨.int, 0⟩⟩ := rfl
  have hkinds : Arguments [⟨.int, 0⟩, ⟨.long, 0⟩] [.int 3, .long 1] :=
    .cons rfl (.cons rfl .nil)
  obtain ⟨hcall, -⟩ := calling_convention (r := ⟨"A", "k", "(IJ)I"⟩) hd conventionScene
  obtain ⟨hpop, -, hmake⟩ := hcall [.int 3, .long 1] (some (.object 0)) [.int 2] hkinds rfl
  obtain ⟨f, hf, -, hbinds⟩ :=
    (hmake ⟨Thread.sample, []⟩ (conventionMethod 4) _ 0 false rfl).1 (by decide)
  have hover := (hmake ⟨Thread.sample, []⟩ (conventionMethod 3) _ 0 false rfl).2 (by decide)
  exact ⟨hd, hpop, ⟨f, hf, hbinds⟩, hover⟩

end Jvm
