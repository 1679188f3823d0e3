import Jvm.Proofs.Machine.Holding

/-!
# The table of canonical strings through runs

Loads of string constants and the arguments of entry points ask for canonical strings, and so may
natives; nothing else has to do with the table. So it grows from every state of a run to the later
ones and from every run to the next, and a string that is canonical once stays so.
-/

namespace Jvm

open Effect
open Scene (onWorld)

/-! ### Instructions -/

theorem World.Grows.detached (w : World) : World.Detached w.Grows where
  area _ hw := hw.of_eq rfl rfl
  heap _ hmade hw := hw.of_eq rfl hmade

theorem Environment.execute_grows (env : Environment) (depth : Nat) (i : Instruction) {w : World}
    {s : Scene} (hs : w.Grows s.world) : w.Grows (env.execute depth i s).2.world := by
  have hkept : Exec.Kept depth fun s => w.Grows s.world :=
    { stack := fun _ hs => hs
      area := fun a hs => (World.Grows.detached w).area a hs
      heap := fun h hmade hs => (World.Grows.detached w).heap h hmade hs
      intern := fun content hs => hs.intern content
      store := fun index v hs => by
        rw [Scene.store_eq]
        split
        · exact hs
        · exact hs.of_eq rfl rfl }
  exact hkept.execute env i hs

/-! ### Natives -/

/-- The registered natives do nothing to the table but ask for contents. -/
def Environment.NativesIntern (env : Environment) : Prop :=
  ∀ r run, env.natives.find? r = some run → ∀ site arguments (w : World), w.Canonical →
    w.Grows (run site arguments w).2

theorem Environment.nativesIntern_standard {env : Environment} (h : env.natives = .standard) :
    env.NativesIntern := by
  intro r run hrun site arguments w hw
  rw [h] at hrun
  exact ((World.Grows.detached w).standard hrun site arguments w (.refl hw)).1

/-! ### Runs -/

namespace Thread

section

variable {env : Environment} (hn : env.NativesIntern)

include hn

theorem native_grows {i : Invocation} (hi : i.Known env) {run : Native}
    {method? : Option (Class × Method)} (hcallee : i.callee = .native run method?) {site : CallSite}
    {arguments : List Value} {w v v' : World} {result : Except Fault Value} (hv : w.Grows v)
    (hrun : run site arguments v = (result, v')) : w.Grows v' := by
  obtain ⟨ref, href⟩ := hi run method? hcallee
  have hgrows := hn ref run href site arguments v hv.canonical
  rw [hrun] at hgrows
  exact hv.trans hgrows

theorem follows_grows {i : Instruction} {f : Frame} {below : List Frame} {w v : World} {step : Step}
    {m : Move} (hv : w.Grows v) (hstep : step.Sound env fun _ => True)
    (h : Follows env i f below v step m) : w.Grows (m.thread below).world := by
  cases h with
  | next | jump | badJump | ret | badCall => exact hv
  | native hcallee hrun => exact native_grows hn hstep.known hcallee hv hrun
  | badNative hcallee hrun => exact native_grows hn hstep.known hcallee hv hrun
  | call hcallee hroom hmake => exact hv.of_eq rfl rfl

theorem step_grows {w : World} {t : Thread} (ht : w.Grows t.world) (base pc : Nat) :
    w.Grows (step env base t pc).thread.world := by
  obtain ⟨_ | ⟨f, below⟩, v⟩ := t
  · exact ht
  · obtain ⟨m, htakes, hstep⟩ := exists_takes env f below v pc
    have hexecuted : ∀ i, w.Grows (env.execute (below.length + 1) i ⟨f, v⟩).2.world :=
      fun i => env.execute_grows _ i ht
    have hmove : w.Grows (m.thread below).world := by
      cases htakes with
      | offEnd hpc | unknown hpc hat => exact ht
      | @fails byte i fault s hpc hat hexec =>
        have hs := hexecuted i
        rwa [hexec] at hs
      | @follows byte i outcome s m hpc hat hexec hfollows =>
        have hs := hexecuted i
        rw [hexec] at hs
        exact follows_grows hn hs (Environment.execute_sound hexec) hfollows
    rw [hstep]
    exact Move.progress_thread (P := fun t => w.Grows t.world) base hmove (fun _ _ h => h)
      fun _ _ _ _ _ h => h

theorem grows_runInvariant (w : World) :
    RunInvariant env (fun t => w.Grows t.world) (Invocation.Known env) where
  load _ ht := (World.Grows.detached w).area _ ht
  claim _ ht := (World.Grows.detached w).area _ ht
  initializer h := (Exec.sound_claimFrom (G := fun _ => True) (Except.ok.inj h)).known
  native ht hi hcallee := by
    unfold callNative
    split <;> rename_i hrun <;> exact native_grows hn hi hcallee ht hrun
  push ht _ h := by
    obtain ⟨-, f, -, rfl⟩ := push_eq_ok_iff.mp h
    exact ht.of_eq rfl rfl
  step base pc ht := step_grows hn ht base pc

/-- From the beginning of a run to any of its states the table grows. -/
theorem RunState.grows {r : MemberRef} {arguments : List Value} {t u : Thread}
    (ht : t.world.Canonical) (h : RunState env r arguments t u) : t.world.Grows u.world :=
  (grows_runInvariant hn t.world).runState (fun _ _ => Invariant.entryCall_known) (.refl ht) h

end

end Thread

/-! ### Entry points and histories -/

theorem Runtime.entryArguments_grows {r : MemberRef} {arguments : List String} {w w' : World}
    {result : Except Fault (List Value)} (hw : w.Canonical)
    (h : entryArguments r arguments w = (result, w')) : w.Grows w' := by
  rcases entryArguments_outcome h with ⟨rfl, -⟩ | ⟨strings, u, hall, -, rfl⟩
  · exact .refl hw
  · have hgrows := (World.Grows.refl hw).internAll arguments
    rw [hall] at hgrows
    exact hgrows.of_eq rfl rfl

/-- Whatever has been run, the table has each content and each object once. -/
theorem World.Reached.canonical {env : Environment} (hn : env.NativesIntern) {A : Value → Prop}
    {w : World} (h : Reached env A w) : w.Canonical := by
  induction h with
  | empty => exact .empty
  | prepared h hargs ih => exact (Runtime.entryArguments_grows ih hargs).canonical
  | ran h _ hrun ih => exact (Thread.RunState.grows hn ih (.ended hrun)).canonical

end Jvm
