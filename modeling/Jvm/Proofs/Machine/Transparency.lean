import Jvm.Proofs.Instruction.Tiling
import Jvm.Proofs.Machine.CallOperands
import Jvm.Proofs.Machine.Nesting

/-!
# Calls give the caller's frame back

A step changes the current frame of a thread and no frame below it, except that a frame that is
returned to receives the value. So when a call returns, whatever it ran in between, its caller has
the locals it had, the operands of the call have been replaced by what was returned, and the caller
goes on behind the call instruction.
-/

namespace Jvm

/-- What a call leaves on the stack of its caller. -/
def Value.returned (v : Value) : List Value := if v.isPresent then [v] else []

theorem Frame.received_eq (f : Frame) (v : Value) :
    f.received v = { f with stack := v.returned ++ f.stack } := by
  unfold received Value.returned
  split <;> rfl

namespace Thread

/-! ### One step -/

theorem Above.length_le {env : Environment} {bottom below : List Frame} {f : Frame} {w : World}
    (h : Above env bottom ⟨f :: below, w⟩) : bottom.length ≤ below.length := by
  obtain ⟨⟨top, callers, hframes⟩, -⟩ := h
  cases hframes
  simp

/-- What comes of a step of a thread whose current frame stands above `below`, in a loop that
started above `bottom`: the frames below are the same, unless the current frame returns to the
first of them, which then receives the value, or the loop ends with the frames it started on. -/
inductive Progress.LeavesBelow (bottom below : List Frame) : Progress → Prop where
  | stay {g : Frame} {world : World} {pc : Nat} :
    LeavesBelow bottom below (.running ⟨g :: below, world⟩ pc)
  | enter {callee g : Frame} {world : World} :
    LeavesBelow bottom below (.running ⟨callee :: g :: below, world⟩ 0)
  | leave {caller : Frame} {rest : List Frame} {value : Value} {world : World}
    (hbelow : below = caller :: rest) :
    LeavesBelow bottom below
      (.running ⟨{ caller with stack := value.returned ++ caller.stack } :: rest, world⟩
        caller.resumePc)
  | finish {result : Except Fault Value} {world : World} (hbottom : bottom <:+ below) :
    LeavesBelow bottom below (.finished result ⟨bottom, world⟩)

theorem step_leavesBelow {env : Environment} {bottom below : List Frame} {f : Frame} {w : World}
    (h : Above env bottom ⟨f :: below, w⟩) (pc : Nat) :
    (step env bottom.length ⟨f :: below, w⟩ pc).LeavesBelow bottom below := by
  obtain ⟨⟨top, callers, hframes⟩, -⟩ := h
  cases hframes
  obtain ⟨m, -, hstep⟩ := exists_takes env f (callers ++ bottom) w pc
  rw [hstep]
  cases m with
  | stay g pc' world => exact .stay
  | enter callee g world => exact .enter
  | leave value world =>
    cases callers with
    | nil =>
      -- The frame that the loop started with returns, and the loop is over.
      rw [Move.progress, List.nil_append, returning_base]
      exact .finish List.suffix_rfl
    | cons caller rest =>
      have hbase : bottom.length ≤ (rest ++ bottom).length := by simp
      rw [Move.progress, List.cons_append, returning_caller hbase, Frame.received_eq]
      exact .leave rfl
  | abort g fault world =>
    have hunwind : unwind ⟨(g :: callers) ++ bottom, world⟩ bottom.length = ⟨bottom, world⟩ :=
      unwind_of_append (g :: callers) bottom world
    rw [Move.progress, ← List.cons_append, hunwind]
    exact .finish (List.suffix_append callers bottom)

/-! ### Calls that return -/

/-- A frame that waits for a call which took `taken` off its stack goes on, once the call has
returned, with the value in place of what was taken. -/
theorem received_waiting_eq {f g : Frame} {taken : List Value} {i : Instruction} {value : Value}
    (h : f = { g with stack := taken ++ g.stack }) :
    (waiting g i false).received value =
      { f with resumePc := i.next, stack := value.returned ++ g.stack } := by
  rw [Frame.received_eq, h]
  rfl

/-- No step touches a frame below the current one, but for the value that a frame receives when it
is returned to. And when a call instruction asks for its call, the loop comes back to the frame
exactly if the call returns, whatever it ran in between: the frame is then what it was, with the
operands of the call on top of its stack replaced by the value that was returned, and goes on behind
the instruction. -/
theorem calls_transparent {env : Environment} {j : Invocation} {t u : Thread} {pc : Nat}
    {f : Frame} {below : List Frame} (h : LoopState env j t u pc) (hframes : u.frames = f :: below) :
    (step env t.depth u pc).LeavesBelow t.frames below ∧
    ∀ i call s, f.code.at? pc = some i → i.opcode ∈ Opcode.calls →
      env.execute u.depth i ⟨f, u.world⟩ = (.ok (.invoke call false), s) →
      ∃ r taken rest, i.callReference? f.pool = some r ∧ f.stack = taken ++ rest ∧
        call.Consumes r (i.opcode ≠ .invokestatic) taken ∧
        ∀ fuel v pc', loopTo env t.depth u.depth (fuel + 1) u pc = some (.running v pc') ↔
          ∃ value w, execute env fuel call ⟨waiting s.frame i false :: below, s.world⟩ =
              some (.ok value, w) ∧
            v = ⟨{ f with resumePc := pc', stack := value.returned ++ rest } :: below, w.world⟩ ∧
            pc' = pc + 1 + i.operandLength := by
  obtain ⟨frames, world⟩ := u
  obtain rfl : frames = f :: below := hframes
  refine ⟨step_leavesBelow h.above pc, fun i call s hat hcall hexec => ?_⟩
  obtain ⟨r, taken, hr, hframe, hconsumes⟩ := Environment.execute_operands hcall hexec
  have hstack : f.stack = taken ++ s.frame.stack := congrArg Frame.stack hframe
  refine ⟨r, taken, s.frame.stack, hr, hstack, hconsumes, fun fuel v pc' => ?_⟩
  obtain ⟨byte, hpc⟩ := Code.exists_byte_of_at? hat
  have hnext : i.next = pc + 1 + i.operandLength := by
    rw [Instruction.next, address_of_at? hat]
  have hreceived : ∀ value, (waiting s.frame i false).received value =
      { f with resumePc := i.next, stack := value.returned ++ s.frame.stack } :=
    fun value => received_waiting_eq hframe
  refine (loopTo_eq_running_iff h.above.length_le hpc hat hexec).trans ?_
  simp only [hreceived]
  constructor
  · rintro ⟨value, w, hexecute, rfl, rfl⟩
    exact ⟨value, w, hexecute, rfl, hnext⟩
  · rintro ⟨value, w, hexecute, rfl, rfl⟩
    exact ⟨value, w, hexecute, by rw [hnext], hnext.symm⟩

/-- A class whose method `m` adds 2 to what `k` returns, which is the first of its two arguments. -/
def sumFile : ClassFile where
  minor := 0
  major := 52
  pool := ⟨#[none, some (.utf8 "A" none), some (.classRef 1), some (.utf8 "()I" none),
    some (.utf8 "(IJ)I" none), some (.utf8 "Code" none), some (.utf8 "m" none),
    some (.utf8 "k" none), some (.nameAndType 7 4), some (.methodref 2 8)]⟩
  flags := 0x21
  thisClass := 2
  superClass := 0
  interfaces := []
  fields := []
  methods := [
    ⟨8, 6, 3, [sampleBody 4 0 [0x05, 0x06, 0x0A, 0xB8, 0, 9, 0x60, 0xAC]], "m", "()I"⟩,
    ⟨8, 7, 4, [sampleBody 1 3 [0x1A, 0xAC]], "k", "(IJ)I"⟩]
  attributes := []
  name := "A"

def sumEnvironment : Environment := ⟨⟨fun _ => .ok sumFile, 1⟩, .standard, 3, false⟩

def sumWorld : World := { World.empty with area := ⟨[⟨⟨sumFile, []⟩, [], true⟩]⟩ }

def sumEntry : Invocation :=
  ⟨⟨"A", "m", "()I"⟩, .body ⟨sumFile, []⟩ sumFile.methods[0], none, [], []⟩

def sumFrame : Frame where
  cls := ⟨sumFile, []⟩
  method := sumFile.methods[0]
  code := .make 4 0 [0x05, 0x06, 0x0A, 0xB8, 0, 9, 0x60, 0xAC] [] []
  resumePc := 0
  slots := #[]
  stack := [.long 1, .int 3, .int 2]
  serial := 0
  observed := false

def sumThread : Thread := ⟨[sumFrame], { sumWorld with calls := 1 }⟩

theorem sum_reached : LoopState sumEnvironment sumEntry ⟨[], sumWorld⟩ sumThread 3 := by
  have hstart : LoopState sumEnvironment sumEntry ⟨[], sumWorld⟩
      ⟨[{ sumFrame with stack := [] }], sumThread.world⟩ 0 := .start rfl rfl
  have hone : LoopState sumEnvironment sumEntry ⟨[], sumWorld⟩
      ⟨[{ sumFrame with stack := [.int 2] }], sumThread.world⟩ 1 := hstart.step rfl
  have htwo : LoopState sumEnvironment sumEntry ⟨[], sumWorld⟩
      ⟨[{ sumFrame with stack := [.int 3, .int 2] }], sumThread.world⟩ 2 := hone.step rfl
  exact htwo.step rfl

-- `k` returns the 3.
theorem sum_returns :
    ∃ i call s v, sumFrame.code.at? (3 : Nat) = some i ∧ i.opcode = .invokestatic ∧
      sumEnvironment.execute 1 i ⟨sumFrame, sumThread.world⟩ = (.ok (.invoke call false), s) ∧
      loopTo sumEnvironment 0 1 4 sumThread 3 = some (.running v 6) ∧
      v.frames.map Frame.stack = [[.int 3, .int 2]] :=
  ⟨_, _, _, _, rfl, rfl, rfl, rfl, rfl⟩

theorem calls_transparent_sum :
    LoopState sumEnvironment sumEntry ⟨[], sumWorld⟩ sumThread 3 ∧
      ∃ (call : Invocation) (r : MemberRef) (taken rest : List Value) (value : Value) (v : Thread),
        sumFrame.stack = taken ++ rest ∧ call.Consumes r false taken ∧
          loopTo sumEnvironment 0 1 4 sumThread 3 = some (.running v 6) ∧
          v.frames = [{ sumFrame with resumePc := 6, stack := value.returned ++ rest }] ∧
          value.returned ++ rest = [.int 3, .int 2] := by
  obtain ⟨i, call, s, v, hat, hop, hexec, hback, hstacks⟩ := sum_returns
  have hcall : i.opcode ∈ Opcode.calls := by
    rw [hop]
    decide
  obtain ⟨-, hcalls⟩ := calls_transparent sum_reached rfl
  obtain ⟨r, taken, rest, -, htaken, hconsumes, hreturns⟩ := hcalls i call s hat hcall hexec
  obtain ⟨value, w, -, rfl, -⟩ := (hreturns 3 v 6).mp hback
  have hstack : value.returned ++ rest = [.int 3, .int 2] := (List.cons.inj hstacks).1
  simp only [hop, ne_eq, not_true_eq_false, decide_false] at hconsumes
  exact ⟨sum_reached, call, r, taken, rest, value, _, htaken, hconsumes, hback, rfl, hstack⟩

end Thread

end Jvm
