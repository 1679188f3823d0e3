import Jvm.Machine.Thread

/-!
# Moves of the current frame

A step of the loop is decided by the current frame, the world and the number of frames below; the
base of the loop only says what becomes of a return or a failure. `Takes` lists what a frame can
do and under which condition, and every step of every loop is one of these moves.
-/

namespace Jvm

/-! ### Frames that are made -/

namespace Frame

def receiverSlots (receiver : Option Value) (size : Nat) : Array Value :=
  match receiver with
  | none => Array.replicate size .none
  | some v => (Array.replicate size .none).setIfInBounds 0 v

theorem make_eq_ok {cls : Class} {method : Method} {receiver : Option Value}
    {parameters : List FieldType} {arguments : List Value} {serial : Nat} {observed : Bool}
    {f : Frame} (h : make cls method receiver parameters arguments serial observed = .ok f) :
    ∃ code slots, method.code? = some code ∧ arguments.length = parameters.length ∧
      receiver.toList.length ≤ code.maxLocals.toNat ∧
      bindArguments (methodLabel cls method) 0 receiver.toList.length parameters arguments
        (receiverSlots receiver code.maxLocals.toNat) = .ok slots ∧
      f = { cls, method, code, resumePc := 0, slots, stack := [], serial, observed } := by
  have hbound : ∀ {code : Code} {bound : Except Fault (Array Value)},
      (bound >>= fun slots => pure (Frame.mk cls method code 0 slots [] serial observed)) = .ok f →
        ∃ slots, bound = .ok slots ∧
          f = Frame.mk cls method code 0 slots [] serial observed := by
    intro code bound hf
    cases bound with
    | error e => cases hf
    | ok slots =>
      cases hf
      exact ⟨slots, rfl, rfl⟩
  unfold make at h
  dsimp only at h
  split at h
  · cases h
  · rename_i code hcode
    split at h
    · cases h
    · rename_i hlength
      have hlength : arguments.length = parameters.length := Decidable.not_not.mp hlength
      cases receiver with
      | none =>
        obtain ⟨slots, hslots, hf⟩ := hbound h
        exact ⟨code, slots, hcode, hlength, Nat.zero_le _, hslots, hf⟩
      | some v =>
        dsimp only at h
        split at h
        · cases h
        · rename_i hroom
          obtain ⟨slots, hslots, hf⟩ := hbound h
          rw [Array.size_replicate] at hroom
          exact ⟨code, slots, hcode, hlength, Nat.pos_of_ne_zero hroom, hslots, hf⟩

end Frame

namespace Thread

/-! ### The depth check -/

theorem push_eq_ok_iff {env : Environment} {cls : Class} {method : Method} {i : Invocation}
    {t u : Thread} :
    t.push env cls method i = .ok u ↔
      t.depth < env.maxDepth ∧
        ∃ f, Frame.make cls method i.receiver i.parameters i.arguments t.world.calls
            env.observed = .ok f ∧
          u = ⟨f :: t.frames, { t.world with calls := t.world.calls + 1 }⟩ := by
  unfold push
  split
  · rename_i hfull
    constructor
    · intro h
      cases h
    · rintro ⟨hroom, -⟩
      omega
  · rename_i hroom
    have hlt : t.depth < env.maxDepth := by omega
    cases Frame.make cls method i.receiver i.parameters i.arguments t.world.calls env.observed with
    | error e => simp [bind, Except.bind]
    | ok f => simp [bind, Except.bind, pure, Except.pure, hlt, eq_comm]

/-! ### Moves -/

/-- What the current frame of a thread can do. -/
inductive Move where
  /-- It goes on at `pc`. -/
  | stay (f : Frame) (pc : Nat) (world : World)
  /-- It waits for the frame of a call. -/
  | enter (callee f : Frame) (world : World)
  /-- It returns. -/
  | leave (value : Value) (world : World)
  /-- It fails. -/
  | abort (f : Frame) (fault : Fault) (world : World)

/-- What comes of a move of the frame above `below` in a loop with the given base. -/
def Move.progress (base : Nat) (below : List Frame) : Move → Progress
  | stay f pc world => .running ⟨f :: below, world⟩ pc
  | enter callee f world => .running ⟨callee :: f :: below, world⟩ 0
  | leave value world => returning base value below world
  | abort f fault world => .finished (.error fault) (unwind ⟨f :: below, world⟩ base)

/-- The move that follows an instruction, by what the instruction asked for. -/
inductive Follows (env : Environment) (i : Instruction) (f : Frame) (below : List Frame)
    (world : World) : Step → Move → Prop where
  | next : Follows env i f below world .next (.stay f i.next world)
  | jump {target : Int} (hlow : 0 ≤ target) (hhigh : target < f.code.bytes.length) :
    Follows env i f below world (.jump target) (.stay f target.toNat world)
  | badJump {target : Int} (hout : target < 0 ∨ (f.code.bytes.length : Int) ≤ target) :
    Follows env i f below world (.jump target)
      (.abort f (located f i.address i.opcode.name (.of .index .invalidJumpTarget
        s!"{target} outside code of length {f.code.bytes.length}")) world)
  | ret {value : Value} : Follows env i f below world (.return_ value) (.leave value world)
  | native {invocation : Invocation} {retry : Bool} {run : Native}
      {method? : Option (Class × Method)} {value : Value} {world' : World}
      (hcallee : invocation.callee = .native run method?)
      (hrun : run (callSite ⟨waiting f i retry :: below, world⟩) invocation.nativeArguments world =
        (.ok value, world')) :
    Follows env i f below world (.invoke invocation retry)
      (.stay ((waiting f i retry).received value) (waiting f i retry).resumePc world')
  | badNative {invocation : Invocation} {retry : Bool} {run : Native}
      {method? : Option (Class × Method)} {fault : Fault} {world' : World}
      (hcallee : invocation.callee = .native run method?)
      (hrun : run (callSite ⟨waiting f i retry :: below, world⟩) invocation.nativeArguments world =
        (.error fault, world')) :
    Follows env i f below world (.invoke invocation retry)
      (.abort (waiting f i retry) (located (waiting f i retry) i.address i.opcode.name
        (.context ("native " ++ invocation.target.text) fault)) world')
  | call {invocation : Invocation} {retry : Bool} {cls : Class} {method : Method} {callee : Frame}
      (hcallee : invocation.callee = .body cls method) (hroom : below.length + 1 < env.maxDepth)
      (hmake : Frame.make cls method invocation.receiver invocation.parameters
        invocation.arguments world.calls env.observed = .ok callee) :
    Follows env i f below world (.invoke invocation retry)
      (.enter callee (waiting f i retry) { world with calls := world.calls + 1 })
  | badCall {invocation : Invocation} {retry : Bool} {cls : Class} {method : Method} {fault : Fault}
      (hcallee : invocation.callee = .body cls method)
      (hpush : push env cls method invocation ⟨waiting f i retry :: below, world⟩ =
        .error fault) :
    Follows env i f below world (.invoke invocation retry)
      (.abort (waiting f i retry)
        (located (waiting f i retry) i.address i.opcode.name fault) world)

/-- The moves of a frame above `below` whose loop is at `pc`. -/
inductive Takes (env : Environment) (f : Frame) (below : List Frame) (world : World) (pc : Nat) :
    Move → Prop where
  | offEnd (hpc : f.code.bytes[pc]? = none) : Takes env f below world pc (.leave .none world)
  | unknown {byte : UInt8} (hpc : f.code.bytes[pc]? = some byte) (hat : f.code.at? pc = none) :
    Takes env f below world pc
      (.abort f (located f pc (Opcode.nameOfByte byte)
        (.of .unknownInstruction .unknownInstruction (Opcode.nameOfByte byte))) world)
  | fails {byte : UInt8} {i : Instruction} {fault : Fault} {s : Scene}
      (hpc : f.code.bytes[pc]? = some byte) (hat : f.code.at? pc = some i)
      (hexec : env.execute (below.length + 1) i ⟨f, world⟩ = (.error fault, s)) :
    Takes env f below world pc
      (.abort s.frame (located s.frame pc i.opcode.name fault) s.world)
  | follows {byte : UInt8} {i : Instruction} {outcome : Step} {s : Scene} {m : Move}
      (hpc : f.code.bytes[pc]? = some byte) (hat : f.code.at? pc = some i)
      (hexec : env.execute (below.length + 1) i ⟨f, world⟩ = (.ok outcome, s))
      (hfollows : Follows env i s.frame below s.world outcome m) :
    Takes env f below world pc m

/-! ### Every step is a move -/

/-- What an instruction asked for is done as one move, the same in every loop. -/
theorem exists_follows (env : Environment) (i : Instruction) (f : Frame) (below : List Frame)
    (world : World) (outcome : Step) :
    ∃ m, Follows env i f below world outcome m ∧
      ∀ base, follow env base i f below world outcome = m.progress base below := by
  cases outcome with
  | next => exact ⟨_, .next, fun _ => rfl⟩
  | jump target =>
    by_cases hout : target < 0 ∨ (f.code.bytes.length : Int) ≤ target
    · refine ⟨_, .badJump hout, fun base => ?_⟩
      rw [follow, if_pos hout]
      rfl
    · refine ⟨_, .jump (by omega) (by omega), fun base => ?_⟩
      rw [follow, if_neg hout]
      rfl
  | return_ value => exact ⟨_, .ret, fun _ => rfl⟩
  | invoke invocation retry =>
    cases hcallee : invocation.callee with
    | native run method? =>
      rcases hrun : run (callSite ⟨waiting f i retry :: below, world⟩)
          invocation.nativeArguments world with ⟨value | fault, world'⟩
      · refine ⟨_, .badNative hcallee hrun, fun base => ?_⟩
        simp only [follow, hcallee, callNative, hrun]
        rfl
      · refine ⟨_, .native hcallee hrun, fun base => ?_⟩
        simp only [follow, hcallee, callNative, hrun]
        rfl
    | body cls method =>
      cases hpush : push env cls method invocation ⟨waiting f i retry :: below, world⟩ with
      | error fault =>
        refine ⟨_, .badCall hcallee hpush, fun base => ?_⟩
        simp only [follow, hcallee, hpush]
        rfl
      | ok entered =>
        obtain ⟨hroom, callee, hmake, rfl⟩ := push_eq_ok_iff.mp hpush
        refine ⟨_, .call hcallee hroom hmake, fun base => ?_⟩
        simp only [follow, hcallee, hpush]
        rfl

/-- Every step of a thread with a frame is a move of its current frame, the same in every loop. -/
theorem exists_takes (env : Environment) (f : Frame) (below : List Frame) (world : World)
    (pc : Nat) :
    ∃ m, Takes env f below world pc m ∧
      ∀ base, step env base ⟨f :: below, world⟩ pc = m.progress base below := by
  cases hpc : f.code.bytes[pc]? with
  | none =>
    refine ⟨_, .offEnd hpc, fun base => ?_⟩
    simp only [step, hpc]
    rfl
  | some byte =>
    cases hat : f.code.at? pc with
    | none =>
      refine ⟨_, .unknown hpc hat, fun base => ?_⟩
      simp only [step, hpc, hat]
      rfl
    | some i =>
      rcases hexec : env.execute (below.length + 1) i ⟨f, world⟩ with ⟨fault | outcome, s⟩
      · refine ⟨_, .fails hpc hat hexec, fun base => ?_⟩
        simp only [step, hpc, hat, depth, List.length_cons, hexec]
        rfl
      · obtain ⟨m, hfollows, hfollow⟩ := exists_follows env i s.frame below s.world outcome
        refine ⟨m, .follows hpc hat hexec hfollows, fun base => ?_⟩
        simp only [step, hpc, hat, depth, List.length_cons, hexec]
        exact hfollow base

end Thread

end Jvm
