import Jvm.Machine.Runtime
import Jvm.Proofs.Machine.Transparency

/-!
# The depth limit

The limit on the number of frames is looked at in one place, where a frame is pushed. So a run under
a higher limit takes the steps that it takes under a lower one, up to the call for which the lower
limit has no room, and that call ends the run under the lower limit with a stack overflow.
-/

namespace Jvm

def Environment.withLimit (env : Environment) (limit : Nat) : Environment :=
  { env with maxDepth := limit }

/-- The failure of a call that found no room. -/
def Overflows {α : Type} (result : Except Fault α) : Prop :=
  ∃ f, result = .error f ∧ f.kind = .stackOverflow

theorem overflows_error {α : Type} {f : Fault} :
    Overflows (.error f : Except Fault α) ↔ f.kind = .stackOverflow := by
  constructor
  · rintro ⟨g, hg, hkind⟩
    cases hg
    exact hkind
  · intro hkind
    exact ⟨f, rfl, hkind⟩

theorem not_overflows_ok {α : Type} (a : α) : ¬ Overflows (.ok a) := by
  rintro ⟨f, hf, -⟩
  cases hf

/-! ### What does not depend on the limit -/

namespace Environment

theorem claimFrom_withLimit (env : Environment) (limit : Nat) (cs : List Class) (a : MethodArea) :
    (env.withLimit limit).claimFrom cs a = env.claimFrom cs a := by
  induction cs generalizing a with
  | nil => rfl
  | cons c rest ih =>
    have hinitializer : (env.withLimit limit).initializer? c = env.initializer? c := rfl
    simp only [claimFrom, hinitializer, ih]

theorem initStep_withLimit (env : Environment) (limit : Nat) (c : Class) :
    (env.withLimit limit).initStep c = env.initStep c := by
  funext a
  simp only [initStep, claimFrom_withLimit]

theorem initialized_withLimit (env : Environment) (limit : Nat) (c : Class) (m : Exec Step) :
    Exec.initialized (env.withLimit limit) c m = Exec.initialized env c m := by
  simp only [Exec.initialized, initStep_withLimit]

theorem execute_withLimit (env : Environment) (limit depth : Nat) (i : Instruction) :
    (env.withLimit limit).execute depth i = env.execute depth i := by
  unfold execute
  cases i.opcode with
  | getstatic =>
    simp only [Exec.getStatic, initialized_withLimit]
    rfl
  | putstatic =>
    simp only [Exec.putStatic, initialized_withLimit]
    rfl
  | invokestatic =>
    simp only [Exec.invokeStatic, initialized_withLimit]
    rfl
  | new =>
    simp only [Exec.newInstance, initialized_withLimit]
    rfl
  | _ => rfl

end Environment

namespace Thread

variable {env : Environment} {lower higher : Nat}

/-! ### One step -/

variable (env) in
theorem push_withLimit (hle : lower ≤ higher) (cls : Class) (method : Method) (i : Invocation)
    (t : Thread) :
    t.push (env.withLimit higher) cls method i = t.push (env.withLimit lower) cls method i ∨
      Overflows (t.push (env.withLimit lower) cls method i) := by
  have hlimit (limit : Nat) : (env.withLimit limit).maxDepth = limit := rfl
  unfold push
  by_cases hfull : (env.withLimit lower).maxDepth ≤ t.depth
  · right
    rw [if_pos hfull]
    exact ⟨_, rfl, rfl⟩
  · left
    have hroom : ¬ (env.withLimit higher).maxDepth ≤ t.depth := by
      rw [hlimit] at hfull ⊢
      omega
    rw [if_neg hfull, if_neg hroom]
    rfl

/-- What comes of a step that found no room. -/
def Progress.Overflows : Progress → Prop
  | .running _ _ => False
  | .finished result _ => Jvm.Overflows result

theorem follow_withLimit (hle : lower ≤ higher) (base : Nat) (i : Instruction) (f : Frame)
    (below : List Frame) (world : World) (outcome : Step) :
    follow (env.withLimit higher) base i f below world outcome =
        follow (env.withLimit lower) base i f below world outcome ∨
      (follow (env.withLimit lower) base i f below world outcome).Overflows := by
  cases outcome with
  | next => exact .inl rfl
  | jump target => exact .inl rfl
  | return_ value => exact .inl rfl
  | invoke invocation retry =>
    cases hcallee : invocation.callee with
    | native run method? =>
      left
      simp only [follow, hcallee]
    | body cls method =>
      simp only [follow, hcallee]
      rcases push_withLimit env hle cls method invocation
        ⟨waiting f i retry :: below, world⟩ with hsame | ⟨fault, hpush, hkind⟩
      · left
        rw [hsame]
      · right
        rw [hpush]
        exact ⟨_, rfl, hkind⟩

variable (env) in
/-- A step under the higher limit is the step under the lower one, unless that overflows. -/
theorem step_withLimit (hle : lower ≤ higher) (base : Nat) (t : Thread) (pc : Nat) :
    step (env.withLimit higher) base t pc = step (env.withLimit lower) base t pc ∨
      (step (env.withLimit lower) base t pc).Overflows := by
  obtain ⟨_ | ⟨f, below⟩, world⟩ := t
  · exact .inl rfl
  · simp only [step, Environment.execute_withLimit]
    cases f.code.bytes[pc]? with
    | none => exact .inl rfl
    | some byte =>
      cases f.code.at? pc with
      | none => exact .inl rfl
      | some i =>
        dsimp only
        rcases env.execute (depth ⟨f :: below, world⟩) i ⟨f, world⟩ with ⟨fault | outcome, s⟩
        · exact .inl rfl
        · exact follow_withLimit hle base i s.frame below s.world outcome

/-! ### Whole runs -/

theorem loop_withLimit (hle : lower ≤ higher) {base : Nat} {result : Except Fault Value}
    {u : Thread} (hresult : ¬ Overflows result) (fuel : Nat) {t : Thread} {pc : Nat}
    (h : loop (env.withLimit lower) base fuel t pc = some (result, u)) :
    loop (env.withLimit higher) base fuel t pc = some (result, u) := by
  induction fuel generalizing t pc with
  | zero => cases h
  | succ fuel ih =>
    rw [loop] at h ⊢
    rcases step_withLimit env hle base t pc with hsame | hoverflow
    · rw [hsame]
      cases hstep : step (env.withLimit lower) base t pc with
      | running v pc' =>
        rw [hstep] at h
        exact ih h
      | finished r v =>
        rw [hstep] at h
        exact h
    · cases hstep : step (env.withLimit lower) base t pc with
      | running v pc' =>
        rw [hstep] at hoverflow
        cases hoverflow
      | finished r v =>
        rw [hstep] at h hoverflow
        cases h
        exact absurd hoverflow hresult

theorem execute_withLimit (hle : lower ≤ higher) {fuel : Nat} {i : Invocation} {t u : Thread}
    {result : Except Fault Value} (hresult : ¬ Overflows result)
    (h : execute (env.withLimit lower) fuel i t = some (result, u)) :
    execute (env.withLimit higher) fuel i t = some (result, u) := by
  unfold execute at h ⊢
  cases hcallee : i.callee with
  | native run method? =>
    rw [hcallee] at h
    exact h
  | body cls method =>
    simp only [hcallee] at h ⊢
    rcases push_withLimit env hle cls method i t with hsame | ⟨fault, hpush, hkind⟩
    · rw [hsame]
      cases hpush : t.push (env.withLimit lower) cls method i with
      | error fault =>
        rw [hpush] at h
        exact h
      | ok entered =>
        rw [hpush] at h
        exact loop_withLimit hle hresult fuel h
    · rw [hpush] at h
      cases h
      exact absurd ⟨fault, rfl, hkind⟩ hresult

theorem initializeWithin_withLimit (hle : lower ≤ higher) {fuel : Nat} {c : Class}
    {result : Except Fault Unit} {u : Thread} (hresult : ¬ Overflows result) (n : Nat)
    {t : Thread} (h : initializeWithin (env.withLimit lower) fuel c n t = some (result, u)) :
    initializeWithin (env.withLimit higher) fuel c n t = some (result, u) := by
  induction n generalizing t with
  | zero => exact h
  | succ n ih =>
    simp only [initializeWithin, Environment.initStep_withLimit] at h ⊢
    rcases hclaim : World.onArea (env.initStep c) t.world with ⟨f | _ | i, world⟩
    · rw [hclaim] at h
      exact h
    · rw [hclaim] at h
      exact h
    · rw [hclaim] at h
      dsimp only at h ⊢
      rcases hexec : execute (env.withLimit lower) fuel i { t with world } with
        _ | ⟨fault | value, v⟩
      · rw [hexec] at h
        cases h
      · -- The fault of an initialiser is the fault of the run.
        rw [hexec] at h
        cases h
        have hfault : ¬ Overflows (.error fault : Except Fault Value) := by
          rwa [overflows_error] at hresult ⊢
        rw [execute_withLimit hle hfault hexec]
      · rw [hexec] at h
        rw [execute_withLimit hle (not_overflows_ok value) hexec]
        exact ih h

theorem run_withLimit (hle : lower ≤ higher) {fuel : Nat} {r : MemberRef} {arguments : List Value}
    {t u : Thread} {result : Except Fault Value} (hresult : ¬ Overflows result)
    (h : run (env.withLimit lower) fuel r arguments t = some (result, u)) :
    run (env.withLimit higher) fuel r arguments t = some (result, u) := by
  have hloader (limit : Nat) : (env.withLimit limit).loader = env.loader := rfl
  have hentry (limit : Nat) (c : Class) :
      entryCall (env.withLimit limit) c r arguments = entryCall env c r arguments := rfl
  simp only [run, initializeClass, hloader, hentry] at h ⊢
  rcases hload : World.onArea (env.loader.ensure r.className) t.world with ⟨f | c, world⟩
  · rw [hload] at h
    exact h
  · rw [hload] at h
    dsimp only at h ⊢
    rcases hinit : initializeWithin (env.withLimit lower) fuel c (c.lineage.length + 1)
      { t with world } with _ | ⟨fault | _, v⟩
    · rw [hinit] at h
      cases h
    · rw [hinit] at h
      cases h
      have hfault : ¬ Overflows (.error fault : Except Fault Unit) := by
        rwa [overflows_error] at hresult ⊢
      rw [initializeWithin_withLimit hle hfault _ hinit]
    · rw [hinit] at h
      rw [initializeWithin_withLimit hle (not_overflows_ok _) _ hinit]
      dsimp only at h ⊢
      cases hcall : entryCall env c r arguments with
      | error f =>
        rw [hcall] at h
        exact h
      | ok i =>
        rw [hcall] at h
        exact execute_withLimit hle hresult h

end Thread

/-- A limit only cuts off. Whatever the classes and natives, a run of a method on any thread, or of
an entry point on any runtime, that ends under a limit with a value or a fault other than a stack
overflow ends under every higher limit with that value or fault, and in the same world. -/
theorem limit_only_cuts_off (env : Environment) {lower higher : Nat} (hle : lower ≤ higher)
    (fuel : Nat) (r : MemberRef) :
    (∀ arguments t result u, ¬ Overflows result →
      Thread.run (env.withLimit lower) fuel r arguments t = some (result, u) →
      Thread.run (env.withLimit higher) fuel r arguments t = some (result, u)) ∧
    ∀ arguments rt result rt', ¬ Overflows result →
      Runtime.runEntry (env.withLimit lower) fuel r arguments rt = some (result, rt') →
      Runtime.runEntry (env.withLimit higher) fuel r arguments rt = some (result, rt') := by
  constructor
  · intro arguments t result u hresult h
    exact Thread.run_withLimit hle hresult h
  intro arguments rt result rt' hresult h
  unfold Runtime.runEntry at h ⊢
  rcases hargs : Runtime.entryArguments r arguments rt.world with ⟨f | values, world⟩
  · rw [hargs] at h
    exact h
  · rw [hargs] at h
    simp only [Runtime.run, Option.map_eq_some_iff, Prod.exists] at h ⊢
    obtain ⟨result₁, rt₁, ⟨result₂, u, hrun, hrt₁⟩, hdone⟩ := h
    cases hrt₁
    cases hdone
    exact ⟨_, _, ⟨_, _, Thread.run_withLimit hle hresult hrun, rfl⟩, rfl⟩

-- `m` calls `k` and no further, so two frames are enough.
theorem sum_within_two :
    (Thread.run (Thread.sumEnvironment.withLimit 2) 20 ⟨"A", "m", "()I"⟩ [] ⟨[], .empty⟩).map
      Prod.fst = some (.ok (.int 5)) := by
  decide +kernel

theorem limit_only_cuts_off_sum :
    2 ≤ defaultMaxDepth ∧
      ∃ u, Thread.run (Thread.sumEnvironment.withLimit 2) 20 ⟨"A", "m", "()I"⟩ [] ⟨[], .empty⟩ =
          some (.ok (.int 5), u) ∧
        Thread.run (Thread.sumEnvironment.withLimit defaultMaxDepth) 20 ⟨"A", "m", "()I"⟩ []
          ⟨[], .empty⟩ = some (.ok (.int 5), u) := by
  have hle : 2 ≤ defaultMaxDepth := by decide
  obtain ⟨⟨_, u⟩, hrun, rfl⟩ := Option.map_eq_some_iff.mp sum_within_two
  have hcut := limit_only_cuts_off Thread.sumEnvironment hle 20 ⟨"A", "m", "()I"⟩
  exact ⟨hle, u, hrun, hcut.1 _ _ _ _ (not_overflows_ok _) hrun⟩

end Jvm
