import Jvm.Proofs.Machine.Move

/-!
# The frames of a thread are put back

A call may return a value or fail at any depth below itself, in an initialiser, in a native or at
the depth check: once it is over, the thread has the frames it had before. While it runs, its loop
works above those frames and never goes over the depth limit.
-/

namespace Jvm.Thread

/-! ### Loops above their base -/

/-- A thread at work: its current frame and the callers on the way to it stand on top of the frames
that were there before, and there are not too many. -/
structure Above (env : Environment) (below : List Frame) (t : Thread) : Prop where
  frames : ∃ f callers, t.frames = f :: (callers ++ below)
  depth_le : t.depth ≤ env.maxDepth

theorem Above.of_push {env : Environment} {cls : Class} {method : Method} {i : Invocation}
    {t u : Thread} (h : t.push env cls method i = .ok u) : Above env t.frames u := by
  obtain ⟨hroom, f, -, rfl⟩ := push_eq_ok_iff.mp h
  exact ⟨⟨f, [], rfl⟩, hroom⟩

theorem unwind_of_append (above below : List Frame) (world : World) :
    unwind ⟨above ++ below, world⟩ below.length = ⟨below, world⟩ := by
  simp [unwind]

theorem returning_base (value : Value) (below : List Frame) (world : World) :
    returning below.length value below world = .finished (.ok value) ⟨below, world⟩ := by
  cases below with
  | nil => rfl
  | cons caller rest => simp [returning]

theorem returning_caller {base : Nat} {rest : List Frame} (h : base ≤ rest.length) (value : Value)
    (caller : Frame) (world : World) :
    returning base value (caller :: rest) world =
      .running ⟨caller.received value :: rest, world⟩ caller.resumePc := by
  rw [returning, if_neg (by omega)]

/-! ### One step -/

/-- What a step of a loop at work comes to: either the loop is still at work, or the frames it
started with are all that is left. -/
def Progress.Keeps (env : Environment) (below : List Frame) : Progress → Prop
  | .running t _ => Above env below t
  | .finished _ t => t.frames = below

theorem step_keeps {env : Environment} {below : List Frame} {t : Thread}
    (h : Above env below t) (pc : Nat) : (step env below.length t pc).Keeps env below := by
  obtain ⟨⟨f, callers, hframes⟩, hdepth⟩ := h
  obtain ⟨frames, world⟩ := t
  obtain rfl : frames = f :: (callers ++ below) := hframes
  obtain ⟨m, htakes, hstep⟩ := exists_takes env f (callers ++ below) world pc
  rw [hstep]
  cases m with
  | stay f' pc' world' => exact ⟨⟨f', callers, rfl⟩, hdepth⟩
  | enter callee f' world' =>
    refine ⟨⟨callee, f' :: callers, rfl⟩, ?_⟩
    -- Only a call with room for its frame enters.
    cases htakes with
    | follows hpc hat hexec hfollows =>
      cases hfollows with
      | call hcallee hroom hmake => exact hroom
  | leave value world' =>
    cases callers with
    | nil =>
      rw [Move.progress, List.nil_append, returning_base]
      rfl
    | cons caller rest =>
      have hbase : below.length ≤ (rest ++ below).length := by simp
      rw [Move.progress, List.cons_append, returning_caller hbase]
      refine ⟨⟨_, rest, rfl⟩, ?_⟩
      simp only [depth, List.length_cons, List.length_append] at hdepth ⊢
      omega
  | abort f' fault world' =>
    show (unwind ⟨(f' :: callers) ++ below, world'⟩ below.length).frames = below
    rw [unwind_of_append]

/-! ### Whole runs -/

theorem loop_frames {env : Environment} {below : List Frame} {result : Except Fault Value}
    {u : Thread} (fuel : Nat) {t : Thread} {pc : Nat} (h : Above env below t)
    (hloop : loop env below.length fuel t pc = some (result, u)) : u.frames = below := by
  induction fuel generalizing t pc with
  | zero => cases hloop
  | succ fuel ih =>
    have hkeeps := step_keeps h pc
    rw [loop] at hloop
    cases hstep : step env below.length t pc with
    | running v pc' =>
      rw [hstep] at hkeeps hloop
      exact ih hkeeps hloop
    | finished r v =>
      rw [hstep] at hkeeps hloop
      cases hloop
      exact hkeeps

theorem callNative_frames (run : Native) (i : Invocation) (t : Thread) :
    (callNative run i t).2.frames = t.frames := by
  unfold callNative
  split <;> rfl

theorem execute_frames {env : Environment} {fuel : Nat} {i : Invocation} {t u : Thread}
    {result : Except Fault Value} (h : execute env fuel i t = some (result, u)) :
    u.frames = t.frames := by
  unfold execute at h
  cases hcallee : i.callee with
  | native run method? =>
    rw [hcallee] at h
    have hcall := callNative_frames run i t
    rwa [Option.some.inj h] at hcall
  | body cls method =>
    rw [hcallee] at h
    cases hpush : t.push env cls method i with
    | error fault =>
      simp only [hpush] at h
      cases h
      rfl
    | ok entered =>
      simp only [hpush] at h
      exact loop_frames fuel (Above.of_push hpush) h

theorem initializeWithin_frames {env : Environment} {fuel : Nat} {c : Class}
    {result : Except Fault Unit} {u : Thread} (n : Nat) {t : Thread}
    (h : initializeWithin env fuel c n t = some (result, u)) : u.frames = t.frames := by
  induction n generalizing t with
  | zero =>
    cases h
    rfl
  | succ n ih =>
    rw [initializeWithin] at h
    split at h
    · cases h
      rfl
    · cases h
      rfl
    · rename_i i world hstep
      split at h
      · cases h
      · rename_i fault v hexec
        cases h
        have hframes := execute_frames hexec
        exact hframes
      · rename_i value v hexec
        have hframes := execute_frames hexec
        exact (ih h).trans hframes

theorem run_frames {env : Environment} {fuel : Nat} {r : MemberRef} {arguments : List Value}
    {t u : Thread} {result : Except Fault Value}
    (h : run env fuel r arguments t = some (result, u)) : u.frames = t.frames := by
  unfold run at h
  split at h
  · cases h
    rfl
  · split at h
    · cases h
    · rename_i hinit
      cases h
      have hframes := initializeWithin_frames _ hinit
      exact hframes
    · rename_i hinit
      have hframes := initializeWithin_frames _ hinit
      split at h
      · cases h
        exact hframes
      · exact (execute_frames h).trans hframes

/-! ### The states on the way -/

/-- The states of the loop that runs a call, each with the address at which it goes on. -/
inductive LoopState (env : Environment) (i : Invocation) (t : Thread) : Thread → Nat → Prop where
  | start {cls : Class} {method : Method} {u : Thread} (hcallee : i.callee = .body cls method)
    (hpush : t.push env cls method i = .ok u) : LoopState env i t u 0
  | step {u v : Thread} {pc pc' : Nat} (h : LoopState env i t u pc)
    (hstep : Thread.step env t.depth u pc = .running v pc') : LoopState env i t v pc'

/-- The initialisers that a class asks for one after the other, each with the thread on which it is
called. -/
inductive InitializerCall (env : Environment) (c : Class) : Thread → Invocation → Thread → Prop where
  | first {t : Thread} {i : Invocation} {world : World}
    (hclaim : World.onArea (env.initStep c) t.world = (.ok (some i), world)) :
    InitializerCall env c t i { t with world }
  | later {t u v : Thread} {i j : Invocation} {world : World} {fuel : Nat} {value : Value}
    (hclaim : World.onArea (env.initStep c) t.world = (.ok (some i), world))
    (hexec : execute env fuel i { t with world } = some (.ok value, u))
    (h : InitializerCall env c u j v) : InitializerCall env c t j v

/-- The calls that a run makes one after the other, each with the thread on which it is made: the
initialisers of the class, then the entry itself. -/
inductive RunCall (env : Environment) (r : MemberRef) (arguments : List Value) (t : Thread) :
    Invocation → Thread → Prop where
  | initializer {c : Class} {world : World} {i : Invocation} {u : Thread}
    (hload : World.onArea (env.loader.ensure r.className) t.world = (.ok c, world))
    (h : InitializerCall env c { t with world } i u) : RunCall env r arguments t i u
  | entry {c : Class} {world : World} {fuel : Nat} {i : Invocation} {u : Thread}
    (hload : World.onArea (env.loader.ensure r.className) t.world = (.ok c, world))
    (hinit : initializeClass env fuel c { t with world } = some (.ok (), u))
    (hentry : entryCall env c r arguments = .ok i) : RunCall env r arguments t i u

theorem LoopState.above {env : Environment} {i : Invocation} {t u : Thread} {pc : Nat}
    (h : LoopState env i t u pc) : Above env t.frames u := by
  induction h with
  | start hcallee hpush => exact .of_push hpush
  | @step u v pc pc' h hstep ih =>
    have hkeeps : (Thread.step env t.depth u pc).Keeps env t.frames := step_keeps ih pc
    rw [hstep] at hkeeps
    exact hkeeps

theorem InitializerCall.frames {env : Environment} {c : Class} {t u : Thread} {i : Invocation}
    (h : InitializerCall env c t i u) : u.frames = t.frames := by
  induction h with
  | first hclaim => rfl
  | later hclaim hexec h ih =>
    have hframes := execute_frames hexec
    exact ih.trans hframes

theorem RunCall.frames {env : Environment} {r : MemberRef} {arguments : List Value} {t u : Thread}
    {i : Invocation} (h : RunCall env r arguments t i u) : u.frames = t.frames := by
  cases h with
  | initializer hload h => exact h.frames
  | entry hload hinit hentry =>
    have hframes := initializeWithin_frames _ hinit
    exact hframes

/-- A call and a run that are over, well or not, leave a thread with the frames it had. On the way,
every call of a run is made on those frames, and every state of every loop has its current frame
above them, with no more frames than the limit allows. -/
theorem frames_balanced (env : Environment) (t : Thread) (hdepth : t.depth ≤ env.maxDepth) :
    (∀ fuel i result u, execute env fuel i t = some (result, u) → u.frames = t.frames) ∧
    (∀ fuel r arguments result u,
      run env fuel r arguments t = some (result, u) → u.frames = t.frames) ∧
    (∀ i u pc, LoopState env i t u pc → Above env t.frames u) ∧
    (∀ r arguments i u, RunCall env r arguments t i u →
      u.frames = t.frames ∧ u.depth ≤ env.maxDepth ∧
        ∀ v pc, LoopState env i u v pc → Above env t.frames v) := by
  refine ⟨?_, ?_, ?_, ?_⟩
  · intro fuel i result u hexec
    exact execute_frames hexec
  · intro fuel r arguments result u hrun
    exact run_frames hrun
  · intro i u pc hstate
    exact hstate.above
  · intro r arguments i u hcall
    have hframes := hcall.frames
    refine ⟨hframes, ?_, ?_⟩
    · rw [depth, hframes]
      exact hdepth
    · intro v pc hstate
      rw [← hframes]
      exact hstate.above

/-! ### A class to run -/

def sampleBody (maxStack maxLocals : UInt16) (code : Bytes) : Attribute :=
  ⟨5, "Code", Builder.encodeCode maxStack maxLocals code,
    .code (.make maxStack maxLocals code [] [])⟩

/-- A class whose initialiser calls its method `f`, which calls itself. Its method `g` returns what
`h` returns, a number that `h` keeps in a local. -/
def sample : ClassFile where
  minor := 0
  major := 52
  pool := ⟨#[none, some (.utf8 "A" none), some (.classRef 1), some (.utf8 "()V" none),
    some (.utf8 "()I" none), some (.utf8 "Code" none), some (.utf8 "<clinit>" none),
    some (.utf8 "f" none), some (.nameAndType 7 3), some (.methodref 2 8),
    some (.utf8 "g" none), some (.utf8 "h" none), some (.nameAndType 11 4),
    some (.methodref 2 12)]⟩
  flags := 0x21
  thisClass := 2
  superClass := 0
  interfaces := []
  fields := []
  methods := [
    ⟨8, 6, 3, [sampleBody 0 0 [0xB8, 0, 9, 0xB1]], "<clinit>", "()V"⟩,
    ⟨8, 7, 3, [sampleBody 0 0 [0xB8, 0, 9, 0xB1]], "f", "()V"⟩,
    ⟨8, 10, 4, [sampleBody 1 0 [0xB8, 0, 13, 0xAC]], "g", "()I"⟩,
    ⟨8, 11, 4, [sampleBody 1 1 [0x08, 0x3B, 0x1A, 0xAC]], "h", "()I"⟩]
  attributes := []
  name := "A"

def sampleEnvironment : Environment := ⟨⟨fun _ => .ok sample, 1⟩, .standard, 3, true⟩

def sampleFrame : Frame where
  cls := ⟨sample, []⟩
  method := ⟨8, 10, 4, [sampleBody 1 0 [0xB8, 0, 13, 0xAC]], "g", "()I"⟩
  code := .make 1 0 [0xB8, 0, 13, 0xAC] [] []
  resumePc := 0
  slots := #[]
  stack := []
  serial := 0
  observed := true

-- The limit is reached two calls deep in the initialiser, which the run calls first.
theorem sample_overflows :
    ∃ fault u, run sampleEnvironment 9 ⟨"A", "f", "()V"⟩ [] ⟨[sampleFrame], .empty⟩ =
        some (.error fault, u) ∧ fault.cause? = some .stackOverflow :=
  ⟨_, _, rfl, rfl⟩

theorem frames_balanced_sample :
    depth ⟨[sampleFrame], .empty⟩ ≤ sampleEnvironment.maxDepth ∧
      ∃ fault u, run sampleEnvironment 9 ⟨"A", "f", "()V"⟩ [] ⟨[sampleFrame], .empty⟩ =
          some (.error fault, u) ∧
        fault.cause? = some .stackOverflow ∧ u.frames = [sampleFrame] := by
  have hdepth : depth ⟨[sampleFrame], .empty⟩ ≤ sampleEnvironment.maxDepth := by decide
  obtain ⟨fault, u, hrun, hcause⟩ := sample_overflows
  have hbalanced := frames_balanced sampleEnvironment ⟨[sampleFrame], .empty⟩ hdepth
  exact ⟨hdepth, fault, u, hrun, hcause, hbalanced.2.1 _ _ _ _ _ hrun⟩

end Jvm.Thread
