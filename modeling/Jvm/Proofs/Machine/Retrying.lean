import Jvm.Proofs.Machine.Initialization
import Jvm.Proofs.Machine.Transparency

/-!
# Instructions that are tried again

An instruction that has to wait for an initialiser is executed again when the initialiser has
returned. Its frame gets what the initialiser returned in the way of any call, so an instruction
that was put off finds these results on top of the stack that it left; locals and address are the
same. An initialiser that returns no value leaves no trace.
-/

namespace Jvm

/-- The instructions that start classes. -/
def Opcode.starting : List Opcode := [.getstatic, .putstatic, .new, .invokestatic]

theorem ClassUse.opcode_of_find? {env : Environment} {p : ConstantPool} {i : Instruction}
    {find : Effect MethodArea ClassUse} (h : find? env p i = some find) :
    i.opcode ∈ Opcode.starting := by
  unfold find? at h
  split at h <;> rename_i hop
  · simp [hop, Opcode.starting]
  · simp [hop, Opcode.starting]
  · simp [hop, Opcode.starting]
  · simp [hop, Opcode.starting]
  · cases h

theorem ClassUse.perform_not_retry {env : Environment} {x : ClassUse} {s t : Scene}
    {j : Invocation} : x.perform env s ≠ (.ok (.invoke j true), t) := by
  intro h
  cases x with
  | read decl r =>
    obtain ⟨w, u, -, hread⟩ := Effect.bind_eq_ok.mp h
    obtain ⟨v, u', -, hpush⟩ := Effect.bind_eq_ok.mp hread
    obtain ⟨_, u'', -, hstep⟩ := Effect.bind_eq_ok.mp hpush
    cases hstep
  | write decl r =>
    obtain ⟨v, u, -, hread⟩ := Effect.bind_eq_ok.mp h
    obtain ⟨w, u', -, hset⟩ := Effect.bind_eq_ok.mp hread
    obtain ⟨area, u'', -, hupdate⟩ := Effect.bind_eq_ok.mp hset
    obtain ⟨_, u₃, -, hstep⟩ := Effect.bind_eq_ok.mp hupdate
    cases hstep
  | allocate c =>
    obtain ⟨target, u, -, hpush⟩ := Effect.bind_eq_ok.mp h
    obtain ⟨_, u', -, hstep⟩ := Effect.bind_eq_ok.mp hpush
    cases hstep
  | bind decl m r =>
    obtain ⟨operands, u, -, hcall⟩ := Effect.bind_eq_ok.mp h
    obtain ⟨i, u', -, hstep⟩ := Effect.bind_eq_ok.mp hcall
    cases hstep

theorem Environment.frame_of_retry {env : Environment} {depth : Nat} {i : Instruction}
    {s t : Scene} {j : Invocation} (h : env.execute depth i s = (.ok (.invoke j true), t)) :
    i.opcode ∈ Opcode.starting ∧ t.frame = s.frame := by
  cases hfind? : ClassUse.find? env s.frame.pool i with
  | none =>
    obtain ⟨-, hplain⟩ :=
      (Invariant.evolution env).execute_plain (Invariant.evolution_scene env s) hfind? depth
    rw [h] at hplain
    cases (hplain _ rfl).1
  | some find =>
    refine ⟨ClassUse.opcode_of_find? hfind?, ?_⟩
    rw [ClassUse.execute_eq hfind?] at h
    obtain ⟨x, u, hfind, hinit⟩ := Effect.bind_eq_ok.mp h
    obtain ⟨i?, v, hclaim, hrest⟩ := Effect.bind_eq_ok.mp hinit
    obtain rfl : (Scene.onArea find s).2 = u := congrArg Prod.snd hfind
    cases i? with
    | none => exact absurd hrest ClassUse.perform_not_retry
    | some i =>
      cases hrest
      obtain rfl : (Scene.onArea _ _).2 = t := congrArg Prod.snd hclaim
      rfl

namespace Thread

variable {env : Environment} {base pc pc' : Nat} {f : Frame} {below : List Frame} {w : World}
  {t u : Thread} {value : Value} {values : List Value}

/-- The instruction at `pc` asks for an initialiser, which returns `value`, and the loop comes back
to the depth of the thread in `u`. -/
inductive Initialized (env : Environment) (base : Nat) (value : Value) :
    Thread → Nat → Thread → Nat → Prop where
  | intro {f : Frame} {below : List Frame} {w : World} {pc pc' fuel : Nat} {byte : UInt8}
    {i : Instruction} {j : Invocation} {s : Scene} {u v : Thread}
    (hpc : f.code.bytes[pc]? = some byte) (hat : f.code.at? pc = some i)
    (hasks : env.execute (below.length + 1) i ⟨f, w⟩ = (.ok (.invoke j true), s))
    (hreturns : execute env fuel j ⟨waiting s.frame i true :: below, s.world⟩ =
      some (.ok value, v))
    (hback : loopTo env base (below.length + 1) (fuel + 1) ⟨f :: below, w⟩ pc =
      some (.running u pc')) : Initialized env base value ⟨f :: below, w⟩ pc u pc'

/-- The instruction at `pc` is tried again after each of some initialisers. These returned `values`,
the latest first. -/
inductive Retried (env : Environment) (base : Nat) :
    List Value → Thread → Nat → Thread → Nat → Prop where
  | done {t : Thread} {pc : Nat} : Retried env base [] t pc t pc
  | again {values : List Value} {value : Value} {t u v : Thread} {pc pc₁ pc₂ : Nat}
    (hfirst : Initialized env base value t pc u pc₁) (h : Retried env base values u pc₁ v pc₂) :
    Retried env base (values ++ [value]) t pc v pc₂

theorem exists_initialized {fuel : Nat} {j : Invocation} (hbase : base ≤ below.length)
    (hasks : request? env ⟨f :: below, w⟩ pc = some j)
    (hback : loopTo env base (below.length + 1) fuel ⟨f :: below, w⟩ pc =
      some (.running u pc')) :
    ∃ value, Initialized env base value ⟨f :: below, w⟩ pc u pc' := by
  obtain ⟨f', below', i, s, byte, hframes, hpc, hat, hexec⟩ := request?_eq_some hasks
  cases hframes
  cases fuel with
  | zero => cases hback
  | succ fuel =>
    obtain ⟨value, v, hreturns, -, -⟩ := (loopTo_eq_running_iff hbase hpc hat hexec).mp hback
    exact ⟨value, .intro hpc hat hexec hreturns hback⟩

theorem Initialized.eq (hbase : base ≤ below.length)
    (h : Initialized env base value ⟨f :: below, w⟩ pc u pc') :
    pc' = pc ∧ (∃ i, f.code.at? pc = some i ∧ i.opcode ∈ Opcode.starting) ∧
      ∃ w', u = ⟨{ f with resumePc := pc, stack := value.returned ++ f.stack } :: below, w'⟩ := by
  cases h with
  | @intro _ _ _ _ _ fuel byte i j s _ v hpc hat hasks hreturns hback =>
    obtain ⟨hop, hframe⟩ := Environment.frame_of_retry hasks
    obtain ⟨value', v', hreturns', rfl, rfl⟩ :=
      (loopTo_eq_running_iff hbase hpc hat hasks).mp hback
    rw [hreturns] at hreturns'
    cases hreturns'
    have haddress : i.address = pc := address_of_at? hat
    refine ⟨haddress, ⟨i, hat, hop⟩, v.world, ?_⟩
    rw [Frame.received_eq, show s.frame = f from hframe, ← haddress]
    rfl

theorem Retried.eq (hbase : base ≤ below.length)
    (h : Retried env base values ⟨f :: below, w⟩ pc u pc') :
    pc' = pc ∧ (values ≠ [] → ∃ i, f.code.at? pc = some i ∧ i.opcode ∈ Opcode.starting) ∧
      ∃ resume w', u = ⟨{ f with
        resumePc := resume, stack := values.flatMap Value.returned ++ f.stack } :: below, w'⟩ := by
  generalize ht : (⟨f :: below, w⟩ : Thread) = t at h
  induction h generalizing f w with
  | done =>
    subst ht
    exact ⟨rfl, fun hne => absurd rfl hne, f.resumePc, w, rfl⟩
  | @again values value t u v pc pc₁ pc₂ hfirst h ih =>
    subst ht
    obtain ⟨rfl, hop, w', rfl⟩ := hfirst.eq hbase
    -- The frame differs from `f` in its stack and `resumePc` only, so the rest is about it as well.
    obtain ⟨rfl, -, resume, w'', rfl⟩ := ih rfl
    refine ⟨rfl, fun _ => hop, resume, w'', ?_⟩
    rw [List.flatMap_append, List.flatMap_singleton, List.append_assoc]

end Thread

theorem Value.returned_eq_nil_iff {v : Value} : v.returned = [] ↔ v = .none := by
  unfold returned isPresent
  by_cases h : v = .none <;> simp [h]

namespace Thread

variable {env : Environment} {base pc : Nat} {f : Frame} {below : List Frame} {w : World}

/-- However often an instruction is put off for the initialisers of a chain of classes: each time
the loop comes back it is at the address of the instruction, with the locals as they were, and the
results of all these initialisers lie on the stack that was there at first. So the stack is the same
exactly when none of them returned a value. -/
theorem retries_leave_results (hbase : base ≤ below.length) :
    (∀ j fuel u pc', request? env ⟨f :: below, w⟩ pc = some j →
      loopTo env base (below.length + 1) fuel ⟨f :: below, w⟩ pc = some (.running u pc') →
        ∃ value, Initialized env base value ⟨f :: below, w⟩ pc u pc') ∧
    ∀ values u pc', Retried env base values ⟨f :: below, w⟩ pc u pc' →
      pc' = pc ∧ (values ≠ [] → ∃ i, f.code.at? pc = some i ∧ i.opcode ∈ Opcode.starting) ∧
      ∃ g w', u = ⟨g :: below, w'⟩ ∧ g.cls = f.cls ∧ g.method = f.method ∧ g.code = f.code ∧
        g.slots = f.slots ∧ g.serial = f.serial ∧
        g.stack = values.flatMap Value.returned ++ f.stack ∧
        (g.stack = f.stack ↔ ∀ value ∈ values, value = .none) := by
  refine ⟨fun j fuel u pc' hasks hback => exists_initialized hbase hasks hback, ?_⟩
  intro values u pc' h
  obtain ⟨rfl, hop, resume, w', rfl⟩ := h.eq hbase
  refine ⟨rfl, hop, _, w', rfl, rfl, rfl, rfl, rfl, rfl, rfl, ?_⟩
  simp only [List.append_left_eq_self, List.flatMap_eq_nil_iff, Value.returned_eq_nil_iff]

end Thread

namespace Runtime

/-- `A.m` calls `D.m`. The initialiser of `D` returns 1. -/
def returningEnvironment : Environment where
  loader := ⟨fun name =>
    if name = "A" then .ok (chainFile "A" "" [chainMethod 4 "m" [0xB8, 0, 7, 0xB1]])
    else if name = "D" then .ok (chainFile "D" ""
      [chainMethod 8 "<clinit>" [0x04, 0xAC], chainMethod 4 "m" [0xB1]])
    else .error (classNotFound name), 2⟩
  natives := .standard
  maxDepth := 5
  observed := false

def returningFrame : Frame where
  cls := ⟨chainFile "A" "" [chainMethod 4 "m" [0xB8, 0, 7, 0xB1]], []⟩
  method := chainMethod 4 "m" [0xB8, 0, 7, 0xB1]
  code := .make 0 0 [0xB8, 0, 7, 0xB1] [] []
  resumePc := 0
  slots := #[]
  stack := []
  serial := 0
  observed := false

def returningWorld : World :=
  { World.empty with
    area := ⟨[⟨returningFrame.cls, [], true⟩]⟩
    calls := 1 }

theorem returning_reached :
    ∃ j t, t.depth = 0 ∧ Thread.RunCall returningEnvironment chainEntry [] ⟨[], .empty⟩ j t ∧
      Thread.LoopState returningEnvironment j t ⟨[returningFrame], returningWorld⟩ 0 :=
  ⟨_, _, rfl, @Thread.RunCall.entry _ _ _ _ _ _ 3 _ _ rfl rfl rfl, .start rfl rfl⟩

-- The call of `D.m` is put off once, and the result of the initialiser lies on the stack then.
theorem returning_retried :
    ∃ value u f, Thread.Retried returningEnvironment 0 [value]
        ⟨[returningFrame], returningWorld⟩ 0 u 0 ∧
      u.frames = [f] ∧ f.stack = [.int 1] ∧ Thread.request? returningEnvironment u 0 = none := by
  have hasks : ∃ j, Thread.request? returningEnvironment ⟨[returningFrame], returningWorld⟩ 0 =
      some j :=
    ⟨_, rfl⟩
  have hback : ∃ u f, Thread.loopTo returningEnvironment 0 1 9
      ⟨[returningFrame], returningWorld⟩ 0 = some (.running u 0) ∧ u.frames = [f] ∧
      f.stack = [.int 1] ∧ Thread.request? returningEnvironment u 0 = none :=
    ⟨_, _, rfl, rfl, rfl, rfl⟩
  obtain ⟨j, hj⟩ := hasks
  obtain ⟨u, f, hloop, hframes, hstack, hnone⟩ := hback
  obtain ⟨value, hinitialized⟩ := Thread.exists_initialized (Nat.zero_le _) hj hloop
  exact ⟨value, u, f, .again hinitialized .done, hframes, hstack, hnone⟩

theorem retries_leave_results_returning :
    ∃ value u, 0 ≤ List.length ([] : List Frame) ∧ value ≠ Value.none ∧
      Thread.Retried returningEnvironment 0 [value] ⟨[returningFrame], returningWorld⟩ 0 u 0 := by
  obtain ⟨value, u, f, hretried, hframes, hstack, -⟩ := returning_retried
  obtain ⟨-, -, g, w, rfl, -, -, -, -, -, -, hkept⟩ :=
    (Thread.retries_leave_results (Nat.le_refl 0)).2 _ _ _ hretried
  obtain rfl : g = f := (List.cons.inj hframes).1
  refine ⟨value, _, Nat.le_refl 0, fun hnone => ?_, hretried⟩
  have hempty : g.stack = [] := hkept.mpr (by simpa using hnone)
  rw [hstack] at hempty
  cases hempty

/-- When `D.m` is called at last, there is a value on the stack that was not there when this
instruction was reached. -/
theorem stack_after_returning :
    ∃ j t, Thread.RunCall returningEnvironment chainEntry [] ⟨[], .empty⟩ j t ∧
      Thread.LoopState returningEnvironment j t ⟨[returningFrame], returningWorld⟩ 0 ∧
      ∃ values u f, Thread.Retried returningEnvironment t.depth values
          ⟨[returningFrame], returningWorld⟩ 0 u 0 ∧
        Thread.request? returningEnvironment u 0 = none ∧ u.frames = [f] ∧
        f.stack ≠ returningFrame.stack := by
  obtain ⟨j, t, hdepth, hcall, hloop⟩ := returning_reached
  obtain ⟨value, u, f, hretried, hframes, hstack, hnone⟩ := returning_retried
  refine ⟨j, t, hcall, hloop, [value], u, f, hdepth ▸ hretried, hnone, hframes, ?_⟩
  rw [hstack]
  exact List.cons_ne_nil _ _

end Runtime

end Jvm
