import Jvm.Proofs.Instruction.Tiling
import Jvm.Proofs.Machine.Balance

/-!
# Calls inside a loop and calls of their own

A method body can be called in two ways: its frame is pushed and the loop at work goes on with it,
or it is executed as a call of its own, as class initialisation does before a run. Both take the
same steps on the same states and differ only in what the end means to the loop around them.
-/

namespace Jvm.Thread

/-! ### The two ways of calling -/

/-- Runs a loop until no frame is left above the lowest `depth`. -/
def loopTo (env : Environment) (base depth : Nat) : Nat → Thread → Nat → Option Progress
  | 0, _, _ => none
  | fuel + 1, t, pc =>
    match step env base t pc with
    | .running u pc' =>
      if u.depth ≤ depth then some (.running u pc') else loopTo env base depth fuel u pc'
    | .finished result u => some (.finished result u)

/-- What the end of a call means to a loop in which `f` waits for it above `below`: a value goes to
`f`, and a failure ends the loop as well. -/
def resumed (base : Nat) (f : Frame) (below : List Frame) : Except Fault Value × Thread → Progress
  | (.ok value, t) => .running ⟨f.received value :: below, t.world⟩ f.resumePc
  | (.error fault, t) => .finished (.error fault) (t.unwind base)

def Progress.outcome (env : Environment) (base fuel : Nat) :
    Progress → Option (Except Fault Value × Thread)
  | .running t pc => loop env base fuel t pc
  | .finished result t => some (result, t)

/-- A loop about to call a method body: the instruction at `pc` of its current frame asks for the
call, which leaves `f` waiting above `below` in `world`, and `entered` is the thread with the frame
of the callee pushed. The current frame is not below the base, as in every loop
(`LoopState.above`). -/
inductive AboutToCall (env : Environment) (base : Nat) :
    Thread → Nat → Invocation → Frame → List Frame → World → Thread → Prop where
  | intro {current : Frame} {below : List Frame} {before : World} {pc : Nat} {byte : UInt8}
    {i : Instruction} {invocation : Invocation} {retry : Bool} {s : Scene} {cls : Class}
    {method : Method} {entered : Thread}
    (hbase : base ≤ below.length)
    (hpc : current.code.bytes[pc]? = some byte) (hat : current.code.at? pc = some i)
    (hexec : env.execute (below.length + 1) i ⟨current, before⟩ =
      (.ok (.invoke invocation retry), s))
    (hcallee : invocation.callee = .body cls method)
    (hpush : push env cls method invocation ⟨waiting s.frame i retry :: below, s.world⟩ =
      .ok entered) :
    AboutToCall env base ⟨current :: below, before⟩ pc invocation (waiting s.frame i retry) below
      s.world entered

/-! ### Steps agree -/

theorem unwind_unwind {t : Thread} {base depth : Nat} (h : base ≤ depth) :
    (t.unwind depth).unwind base = t.unwind base := by
  obtain ⟨frames, world⟩ := t
  simp only [unwind, List.drop_drop, List.length_drop, Thread.mk.injEq, and_true]
  congr 1
  omega

/-- What comes of a step of a call, seen from the loop around it. -/
def Progress.within (base : Nat) (f : Frame) (below : List Frame) : Progress → Progress
  | .running t pc => .running t pc
  | .finished result t => resumed base f below (result, t)

/-- A step of the loop around a call is the step of the call, seen from that loop. -/
theorem step_within {env : Environment} {base : Nat} {f : Frame} {below : List Frame} {t : Thread}
    (h : Above env (f :: below) t) (hbase : base ≤ below.length) (pc : Nat) :
    step env base t pc = (step env (below.length + 1) t pc).within base f below := by
  obtain ⟨⟨top, callers, hframes⟩, -⟩ := h
  obtain ⟨frames, world⟩ := t
  obtain rfl : frames = top :: (callers ++ f :: below) := hframes
  obtain ⟨m, -, hstep⟩ := exists_takes env top (callers ++ f :: below) world pc
  rw [hstep, hstep]
  cases m with
  | stay top' pc' world' => rfl
  | enter callee top' world' => rfl
  | leave value world' =>
    cases callers with
    | nil =>
      -- The callee itself returns: the call is over, and the loop around it goes on with `f`.
      have hend : returning (below.length + 1) value (f :: below) world' =
          .finished (.ok value) ⟨f :: below, world'⟩ := returning_base value (f :: below) world'
      simp only [Move.progress, List.nil_append]
      rw [hend, returning_caller hbase]
      rfl
    | cons caller rest =>
      have hlength : (rest ++ f :: below).length = rest.length + (below.length + 1) := by simp
      simp only [Move.progress, List.cons_append]
      rw [returning_caller (by omega), returning_caller (by omega)]
      rfl
  | abort top' fault world' =>
    simp only [Move.progress, Progress.within, resumed]
    rw [unwind_unwind (Nat.le_succ_of_le hbase)]

/-! ### Runs agree -/

theorem loopTo_eq {env : Environment} {base : Nat} {f : Frame} {below : List Frame}
    (hbase : base ≤ below.length) (fuel : Nat) {t : Thread} {pc : Nat}
    (h : Above env (f :: below) t) :
    loopTo env base (below.length + 1) fuel t pc =
      (loop env (below.length + 1) fuel t pc).map (resumed base f below) := by
  induction fuel generalizing t pc with
  | zero => rfl
  | succ fuel ih =>
    have hkeeps : (step env (below.length + 1) t pc).Keeps env (f :: below) := step_keeps h pc
    rw [loopTo, loop, step_within h hbase]
    cases hstep : step env (below.length + 1) t pc with
    | running u pc' =>
      rw [hstep] at hkeeps
      obtain ⟨top, callers, hframes⟩ := hkeeps.frames
      have hdepth : ¬ u.depth ≤ below.length + 1 := by
        rw [depth, hframes]
        simp only [List.length_cons, List.length_append]
        omega
      simp only [Progress.within]
      rw [if_neg hdepth]
      exact ih hkeeps
    | finished result u =>
      cases result with
      | ok value =>
        have hdepth : depth ⟨f.received value :: below, u.world⟩ ≤ below.length + 1 :=
          Nat.le_refl _
        simp only [Progress.within, resumed]
        rw [if_pos hdepth]
        rfl
      | error fault => rfl

theorem loop_of_loopTo {env : Environment} {base depth : Nat} {p : Progress} (fuel : Nat)
    {t : Thread} {pc : Nat} (h : loopTo env base depth fuel t pc = some p) :
    ∃ used, ∀ more, loop env base (more + used) t pc = p.outcome env base more := by
  induction fuel generalizing t pc with
  | zero => cases h
  | succ fuel ih =>
    rw [loopTo] at h
    cases hstep : step env base t pc with
    | running u pc' =>
      simp only [hstep] at h
      split at h
      · cases h
        refine ⟨1, fun more => ?_⟩
        rw [loop, hstep]
        rfl
      · obtain ⟨used, hused⟩ := ih h
        refine ⟨used + 1, fun more => ?_⟩
        rw [← Nat.add_assoc, loop, hstep]
        exact hused more
    | finished result u =>
      simp only [hstep] at h
      cases h
      refine ⟨1, fun more => ?_⟩
      rw [loop, hstep]
      rfl

theorem address_of_at? {c : Code} {pc : Nat} {i : Instruction} (h : c.at? pc = some i) :
    i.address = pc := by
  rw [Code.at?_eq_sweep] at h
  exact (Listing.at?_sweep h).2.1

theorem AboutToCall.step_eq {env : Environment} {base pc : Nat} {t entered : Thread}
    {invocation : Invocation} {f : Frame} {below : List Frame} {world : World}
    (h : AboutToCall env base t pc invocation f below world entered) :
    step env base t pc = .running entered 0 := by
  cases h with
  | intro hbase hpc hat hexec hcallee hpush =>
    simp only [step, hpc, hat, depth, List.length_cons, hexec, follow, hcallee, hpush]

theorem AboutToCall.loopTo_eq_execute {env : Environment} {base pc : Nat} {t entered : Thread}
    {invocation : Invocation} {f : Frame} {below : List Frame} {world : World}
    (h : AboutToCall env base t pc invocation f below world entered) (fuel : Nat) :
    loopTo env base (below.length + 1) fuel entered 0 =
      (execute env fuel invocation ⟨f :: below, world⟩).map (resumed base f below) := by
  cases h with
  | intro hbase hpc hat hexec hcallee hpush =>
    rw [loopTo_eq hbase fuel (Above.of_push hpush)]
    simp only [execute, hcallee, hpush]
    rfl

/-- A loop comes back to the depth of a frame that asked for a call when the call has returned, and
goes on there with what was returned. -/
theorem loopTo_eq_running_iff {env : Environment} {f : Frame} {below : List Frame} {w : World}
    {base pc pc' fuel : Nat} {byte : UInt8} {i : Instruction} {j : Invocation} {retry : Bool}
    {s : Scene} {u : Thread} (hbase : base ≤ below.length) (hpc : f.code.bytes[pc]? = some byte)
    (hat : f.code.at? pc = some i)
    (hexec : env.execute (below.length + 1) i ⟨f, w⟩ = (.ok (.invoke j retry), s)) :
    loopTo env base (below.length + 1) (fuel + 1) ⟨f :: below, w⟩ pc = some (.running u pc') ↔
      ∃ value v, execute env fuel j ⟨waiting s.frame i retry :: below, s.world⟩ =
          some (.ok value, v) ∧
        u = ⟨(waiting s.frame i retry).received value :: below, v.world⟩ ∧
          pc' = (waiting s.frame i retry).resumePc := by
  have hstep : step env base ⟨f :: below, w⟩ pc =
      follow env base i s.frame below s.world (.invoke j retry) := by
    simp only [step, hpc, hat, depth, List.length_cons, hexec]
  rw [loopTo, hstep]
  cases hcallee : j.callee with
  | native run method? =>
    -- A native is over at once.
    rcases hrun : callNative run j ⟨waiting s.frame i retry :: below, s.world⟩
      with ⟨fault | value, v⟩
    · simp [follow, hcallee, hrun, execute, failed]
    · simp only [follow, hcallee, hrun, execute, depth, List.length_cons, Nat.le_refl, if_true]
      constructor
      · intro h
        cases h
        exact ⟨value, v, rfl, rfl, rfl⟩
      · rintro ⟨_, _, hv, rfl, rfl⟩
        cases hv
        rfl
  | body cls method =>
    cases hpush : push env cls method j ⟨waiting s.frame i retry :: below, s.world⟩ with
    | error fault => simp [follow, hcallee, hpush, execute, failed]
    | ok entered =>
      -- The frame of a body has to return first, which takes a loop.
      obtain ⟨-, callee, -, rfl⟩ := push_eq_ok_iff.mp hpush
      have hdeeper : ¬ below.length + 1 + 1 ≤ below.length + 1 := by omega
      simp only [follow, hcallee, hpush, depth, List.length_cons, hdeeper, if_false, execute]
      rw [loopTo_eq hbase fuel (Above.of_push hpush), Option.map_eq_some_iff]
      constructor
      · rintro ⟨⟨fault | value, v⟩, hloop, hresumed⟩
        · cases hresumed
        · cases hresumed
          exact ⟨value, v, hloop, rfl, rfl⟩
      · rintro ⟨value, v, hloop, rfl, rfl⟩
        exact ⟨(.ok value, v), hloop, rfl⟩

/-- A loop that is about to call a method body pushes its frame and then, until that frame is gone,
does step for step what a call of its own does from the same state. The two end together or not at
all, with the same value or failure and the same world (the loaded and initialised classes, the heap,
the canonical strings and the records of stores), and the loop goes on as if the call had been made
apart from it. -/
theorem inline_eq_nested {env : Environment} {base pc : Nat} {t entered : Thread}
    {invocation : Invocation} {f : Frame} {below : List Frame} {world : World}
    (h : AboutToCall env base t pc invocation f below world entered) :
    step env base t pc = .running entered 0 ∧
    (∀ fuel, loopTo env base (below.length + 1) fuel entered 0 =
      (execute env fuel invocation ⟨f :: below, world⟩).map (resumed base f below)) ∧
    ((∀ fuel, loopTo env base (below.length + 1) fuel entered 0 = none) ↔
      ∀ fuel, execute env fuel invocation ⟨f :: below, world⟩ = none) ∧
    (∀ fuel outcome, execute env fuel invocation ⟨f :: below, world⟩ = some outcome →
      ∃ used, ∀ more, loop env base (more + used) t pc =
        (resumed base f below outcome).outcome env base more) := by
  have hruns := h.loopTo_eq_execute
  refine ⟨h.step_eq, hruns, ?_, ?_⟩
  · simp only [hruns, Option.map_eq_none_iff]
  · intro fuel outcome houtcome
    have hinline : loopTo env base (below.length + 1) fuel entered 0 =
        some (resumed base f below outcome) := by
      rw [hruns, houtcome]
      rfl
    obtain ⟨used, hused⟩ := loop_of_loopTo fuel hinline
    refine ⟨used + 1, fun more => ?_⟩
    rw [← Nat.add_assoc, loop, h.step_eq]
    exact hused more

def sampleWorld : World := { World.empty with area := ⟨[⟨⟨sample, []⟩, [], true⟩]⟩ }

-- `g` calls `h`, which stores and returns 5.
theorem sample_returns :
    ∃ invocation f world entered u,
      AboutToCall sampleEnvironment 0 ⟨[sampleFrame], sampleWorld⟩ 0 invocation f [] world
        entered ∧
      execute sampleEnvironment 9 invocation ⟨[f], world⟩ = some (.ok (.int 5), u) ∧
      u.world.stores.length = 1 :=
  ⟨_, _, _, _, _, .intro (Nat.le_refl 0) rfl rfl rfl rfl rfl, rfl, rfl⟩

theorem inline_eq_nested_sample :
    ∃ invocation f world entered u,
      AboutToCall sampleEnvironment 0 ⟨[sampleFrame], sampleWorld⟩ 0 invocation f [] world
        entered ∧
      execute sampleEnvironment 9 invocation ⟨[f], world⟩ = some (.ok (.int 5), u) ∧
      u.world.stores.length = 1 ∧
      loopTo sampleEnvironment 0 1 9 entered 0 =
        some (.running ⟨[f.received (.int 5)], u.world⟩ f.resumePc) := by
  obtain ⟨invocation, f, world, entered, u, habout, hexec, hstores⟩ := sample_returns
  have hruns := (inline_eq_nested habout).2.1 9
  rw [hexec] at hruns
  exact ⟨invocation, f, world, entered, u, habout, hexec, hstores, hruns⟩

end Jvm.Thread
