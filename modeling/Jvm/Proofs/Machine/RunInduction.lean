import Jvm.Proofs.Machine.Initialization

/-!
# Induction over runs

A run loads a class, claims the classes that have to be started, calls natives, pushes frames and
takes steps. A property of threads that each of these keeps holds in every state of the run.
-/

namespace Jvm.Thread

/-- After a move a property of threads holds of all that the move leaves, if taking off frames keeps
it and handing what was returned to the caller does. -/
theorem Move.progress_thread {P : Thread → Prop} {m : Move} {below : List Frame} (base : Nat)
    (h : P (m.thread below))
    (hdrop : ∀ t n, P t → P { t with frames := t.frames.drop n })
    (hreceive : ∀ value caller rest w, m = .leave value w → P ⟨caller :: rest, w⟩ →
      P ⟨caller.received value :: rest, w⟩) :
    P (m.progress base below).thread := by
  cases m with
  | stay f pc w => exact h
  | enter callee f w => exact h
  | abort f fault w => exact hdrop _ _ h
  | leave value w =>
    cases below with
    | nil => exact h
    | cons caller rest =>
      simp only [progress, returning]
      split
      · exact h
      · exact hreceive value caller rest w rfl h

/-- A property of threads that the parts of a run keep, when the calls that are made have property
`Q`. -/
structure RunInvariant (env : Environment) (P : Thread → Prop) (Q : Invocation → Prop) : Prop where
  load {t : Thread} (name : String) (ht : P t) :
    P { t with world := (World.onArea (env.loader.ensure name) t.world).2 }
  claim {t : Thread} (c : Class) (ht : P t) :
    P { t with world := (World.onArea (env.initStep c) t.world).2 }
  initializer {c : Class} {w : World} {i : Invocation}
    (h : (World.onArea (env.initStep c) w).1 = .ok (some i)) : Q i
  native {t : Thread} {i : Invocation} {run : Native} {method? : Option (Class × Method)} (ht : P t)
    (hi : Q i) (hcallee : i.callee = .native run method?) : P (callNative run i t).2
  push {t u : Thread} {i : Invocation} {cls : Class} {method : Method} (ht : P t) (hi : Q i)
    (h : t.push env cls method i = .ok u) : P u
  step {t : Thread} (base pc : Nat) (ht : P t) : P (step env base t pc).thread

namespace RunInvariant

variable {env : Environment} {P : Thread → Prop} {Q : Invocation → Prop}
  (hP : RunInvariant env P Q)

include hP

theorem running {t u : Thread} {base pc pc' : Nat} (ht : P t)
    (h : Thread.step env base t pc = .running u pc') : P u := by
  have hkept := hP.step base pc ht
  rwa [h] at hkept

theorem loaded {name : String} {t : Thread} {w : World} {r : Except Fault Class} (ht : P t)
    (h : World.onArea (env.loader.ensure name) t.world = (r, w)) : P { t with world := w } := by
  have hkept := hP.load name ht
  rwa [h] at hkept

theorem claimed {c : Class} {t : Thread} {w : World} {r : Except Fault (Option Invocation)}
    (ht : P t) (h : World.onArea (env.initStep c) t.world = (r, w)) :
    P { t with world := w } ∧ ∀ i, r = .ok (some i) → Q i := by
  have hkept := hP.claim c ht
  rw [h] at hkept
  exact ⟨hkept, fun i hi => hP.initializer (by rw [h, hi])⟩

/-! ### Calls and runs -/

theorem loop {base : Nat} {result : Except Fault Value} {u : Thread} (fuel : Nat) {t : Thread}
    {pc : Nat} (ht : P t) (h : Thread.loop env base fuel t pc = some (result, u)) : P u := by
  induction fuel generalizing t pc with
  | zero => cases h
  | succ fuel ih =>
    have hkept := hP.step base pc ht
    rw [Thread.loop] at h
    cases hstep : Thread.step env base t pc with
    | running v pc' =>
      rw [hstep] at hkept h
      exact ih hkept h
    | finished r v =>
      rw [hstep] at hkept h
      cases h
      exact hkept

theorem execute {fuel : Nat} {i : Invocation} {t u : Thread} {result : Except Fault Value}
    (ht : P t) (hi : Q i) (h : Thread.execute env fuel i t = some (result, u)) : P u := by
  unfold Thread.execute at h
  cases hcallee : i.callee with
  | native run method? =>
    rw [hcallee] at h
    have hkept := hP.native ht hi hcallee
    rwa [Option.some.inj h] at hkept
  | body cls method =>
    rw [hcallee] at h
    cases hpush : t.push env cls method i with
    | error fault =>
      simp only [hpush] at h
      cases h
      exact ht
    | ok entered =>
      simp only [hpush] at h
      exact hP.loop fuel (hP.push ht hi hpush) h

theorem initializeWithin {fuel : Nat} {c : Class} {result : Except Fault Unit} {u : Thread}
    (n : Nat) {t : Thread} (ht : P t)
    (h : Thread.initializeWithin env fuel c n t = some (result, u)) : P u := by
  induction n generalizing t with
  | zero =>
    cases h
    exact ht
  | succ n ih =>
    rw [Thread.initializeWithin] at h
    split at h
    · rename_i hclaim
      cases h
      exact (hP.claimed ht hclaim).1
    · rename_i hclaim
      cases h
      exact (hP.claimed ht hclaim).1
    · rename_i i w hclaim
      obtain ⟨hclaimed, hcall⟩ := hP.claimed ht hclaim
      split at h
      · cases h
      · rename_i hexec
        cases h
        exact hP.execute hclaimed (hcall i rfl) hexec
      · rename_i hexec
        exact ih (hP.execute hclaimed (hcall i rfl) hexec) h

theorem loopState {i : Invocation} {t u : Thread} {pc : Nat} (ht : P t) (hi : Q i)
    (h : LoopState env i t u pc) : P u := by
  induction h with
  | start hcallee hpush => exact hP.push ht hi hpush
  | step h hstep ih => exact hP.running ih hstep

theorem initializerCall {c : Class} {t u : Thread} {i : Invocation} (ht : P t)
    (h : InitializerCall env c t i u) : P u ∧ Q i := by
  induction h with
  | first hclaim =>
    obtain ⟨hclaimed, hcall⟩ := hP.claimed ht hclaim
    exact ⟨hclaimed, hcall _ rfl⟩
  | later hclaim hexec h ih =>
    obtain ⟨hclaimed, hcall⟩ := hP.claimed ht hclaim
    exact ih (hP.execute hclaimed (hcall _ rfl) hexec)

section

variable {r : MemberRef} {arguments : List Value} {t u : Thread}
  (hentry : ∀ c i, entryCall env c r arguments = .ok i → Q i) (ht : P t)

include hentry ht

theorem runCall {i : Invocation} (h : RunCall env r arguments t i u) : P u ∧ Q i := by
  cases h with
  | initializer hload h => exact hP.initializerCall (hP.loaded ht hload) h
  | entry hload hinit hcall =>
    exact ⟨hP.initializeWithin _ (hP.loaded ht hload) hinit, hentry _ i hcall⟩

theorem run {fuel : Nat} {result : Except Fault Value}
    (h : Thread.run env fuel r arguments t = some (result, u)) : P u := by
  unfold Thread.run at h
  split at h
  · rename_i hload
    cases h
    exact hP.loaded ht hload
  · rename_i hload
    split at h
    · cases h
    · rename_i hinit
      cases h
      exact hP.initializeWithin _ (hP.loaded ht hload) hinit
    · rename_i hinit
      have hu := hP.initializeWithin _ (hP.loaded ht hload) hinit
      split at h
      · cases h
        exact hu
      · rename_i hcall
        exact hP.execute hu (hentry _ _ hcall) h

/-- What the parts of a run keep holds in every state of the run. -/
theorem runState (h : RunState env r arguments t u) : P u := by
  cases h with
  | idle => exact ht
  | loaded hload => exact hP.loaded ht hload
  | calling hcall => exact (hP.runCall hentry ht hcall).1
  | looping hcall hloop =>
    obtain ⟨hu, hi⟩ := hP.runCall hentry ht hcall
    exact hP.loopState hu hi hloop
  | ended hrun => exact hP.run hentry ht hrun

end

end RunInvariant

end Jvm.Thread
