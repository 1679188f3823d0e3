import Jvm.Proofs.Machine.Initialization

/-!
# Failing states end their run

More fuel changes no result. So a loop that comes to a state in which it fails makes the whole run
fail with the same fault, given enough fuel, also when the loop is that of one of the initialisers
that run before the entry: each of these starts a class of the chain, so there are no more of them
than a run makes.
-/

namespace Jvm.Thread

open MethodArea (Evolves)

variable {env : Environment}

/-! ### More fuel -/

theorem loop_mono {base fuel more : Nat} (hle : fuel ≤ more) {t : Thread} {pc : Nat}
    {r : Except Fault Value × Thread} (h : loop env base fuel t pc = some r) :
    loop env base more t pc = some r := by
  induction fuel generalizing t pc more with
  | zero => cases h
  | succ fuel ih =>
    obtain ⟨more, rfl⟩ : ∃ n, more = n + 1 := ⟨more - 1, by omega⟩
    rw [loop] at h ⊢
    cases hstep : step env base t pc with
    | running v pc' =>
      rw [hstep] at h
      exact ih (by omega) h
    | finished result v =>
      rw [hstep] at h
      exact h

theorem execute_mono {fuel more : Nat} (hle : fuel ≤ more) {i : Invocation} {t : Thread}
    {r : Except Fault Value × Thread} (h : execute env fuel i t = some r) :
    execute env more i t = some r := by
  unfold execute at h ⊢
  cases hcallee : i.callee with
  | native run method? =>
    rw [hcallee] at h
    exact h
  | body cls method =>
    simp only [hcallee] at h ⊢
    cases hpush : t.push env cls method i with
    | error fault =>
      rw [hpush] at h
      exact h
    | ok entered =>
      rw [hpush] at h
      exact loop_mono hle h

theorem initializeWithin_mono {fuel more : Nat} (hle : fuel ≤ more) {c : Class} (n : Nat)
    {t : Thread} {r : Except Fault Unit × Thread}
    (h : initializeWithin env fuel c n t = some r) :
    initializeWithin env more c n t = some r := by
  induction n generalizing t with
  | zero => exact h
  | succ n ih =>
    rw [initializeWithin] at h ⊢
    rcases hclaim : World.onArea (env.initStep c) t.world with ⟨f | _ | i, w⟩
    · rw [hclaim] at h
      exact h
    · rw [hclaim] at h
      exact h
    · rw [hclaim] at h
      dsimp only at h ⊢
      rcases hexec : execute env fuel i { t with world := w } with _ | ⟨f | value, u⟩
      · rw [hexec] at h
        cases h
      · rw [hexec] at h
        rw [execute_mono hle hexec]
        exact h
      · rw [hexec] at h
        rw [execute_mono hle hexec]
        exact ih h

/-! ### Loops -/

/-- A call comes to every state of its loop. -/
theorem LoopState.exists_fuel {i : Invocation} {t v : Thread} {pc : Nat}
    (h : LoopState env i t v pc) :
    ∃ spent, ∀ fuel, execute env (spent + fuel) i t = loop env t.depth fuel v pc := by
  induction h with
  | start hcallee hpush =>
    refine ⟨0, fun fuel => ?_⟩
    rw [execute, hcallee, Nat.zero_add]
    simp only [hpush]
  | @step u v pc pc' h hstep ih =>
    obtain ⟨spent, hspent⟩ := ih
    -- One step more, paid from the fuel that was left before it.
    refine ⟨spent + 1, fun fuel => ?_⟩
    rw [Nat.add_assoc, Nat.add_comm 1, hspent, loop, hstep]

theorem LoopState.execute_eq {i : Invocation} {t v u : Thread} {pc : Nat}
    {result : Except Fault Value} (h : LoopState env i t v pc)
    (hstep : Thread.step env t.depth v pc = .finished result u) :
    ∃ fuel, execute env fuel i t = some (result, u) := by
  obtain ⟨spent, hspent⟩ := h.exists_fuel
  refine ⟨spent + 1, ?_⟩
  rw [hspent, loop, hstep]

/-! ### Initialisers -/

section

variable (hn : env.NativesEvolve)

include hn

/-- The initialisers up to the one that fails start as many classes of the chain. -/
theorem InitializerCall.exists_started {c : Class} {t u v : Thread} {i : Invocation} {f : Fault}
    {fuel : Nat} (h : InitializerCall env c t i u) (ha : t.world.area.Linked)
    (hc : t.world.area.class? c.name = some c) (hexec : execute env fuel i u = some (.error f, v)) :
    ∃ (names : List String) (enough : Nat), names.Nodup ∧
      (∀ n ∈ names, n ∈ c.lineage.map Class.name ∧ ¬ t.world.area.Started n) ∧
      ∀ extra, initializeWithin env enough c (names.length + extra) t = some (.error f, v) := by
  induction h with
  | @first t i w hclaim =>
    obtain ⟨k, hk, hnew, -, -⟩ := env.initStep_some ha hc (World.onArea_eq hclaim)
    refine ⟨[k.name], fuel, by simp, ?_, fun extra => ?_⟩
    · rw [List.forall_mem_singleton]
      exact ⟨List.mem_map_of_mem hk, hnew⟩
    · rw [List.length_singleton, Nat.add_comm, initializeWithin, hclaim]
      simp only [hexec]
  | @later t u v' i j w fuel' value hclaim hcall h ih =>
    have hnext := World.onArea_eq hclaim
    obtain ⟨k, hk, hnew, hstarted, hinit⟩ := env.initStep_some ha hc hnext
    have hopened : Evolves env t.world.area w.area := .step (.refl env _) (.of_initStep hc hnext)
    have hw : w.area.Linked := hopened.linked ha
    have hran : Evolves env w.area u.world.area :=
      execute_evolves hn hw (Environment.initializer?_known hinit) hcall
    obtain ⟨names, enough, hnodup, hnames, hrest⟩ :=
      ih (hran.linked hw) (hran.class? hw (hopened.class? ha hc)) hexec
    refine ⟨k.name :: names, max fuel' enough, List.nodup_cons.mpr ⟨?_, hnodup⟩, ?_, ?_⟩
    · -- The class of this step has been started when the later ones are claimed.
      exact fun hmem => (hnames _ hmem).2 (hran.started hw hstarted)
    · rw [List.forall_mem_cons]
      refine ⟨⟨List.mem_map_of_mem hk, hnew⟩, fun n hmem => ⟨(hnames n hmem).1, fun hold => ?_⟩⟩
      exact (hnames n hmem).2 ((hopened.trans hran).started ha hold)
    · intro extra
      have hlength : (k.name :: names).length + extra = names.length + extra + 1 := by
        rw [List.length_cons]
        omega
      rw [hlength, initializeWithin, hclaim]
      simp only [execute_mono (Nat.le_max_left fuel' enough) hcall]
      exact initializeWithin_mono (Nat.le_max_right fuel' enough) _ (hrest extra)

theorem InitializerCall.initializeClass_eq {c : Class} {t u v : Thread} {i : Invocation} {f : Fault}
    {fuel : Nat} (h : InitializerCall env c t i u) (ha : t.world.area.Linked)
    (hc : t.world.area.class? c.name = some c) (hexec : execute env fuel i u = some (.error f, v)) :
    ∃ enough, initializeClass env enough c t = some (.error f, v) := by
  obtain ⟨names, enough, hnodup, hnames, hrest⟩ := h.exists_started hn ha hc hexec
  have hlength := hnodup.length_le_of_subset fun n hn => (hnames n hn).1
  rw [List.length_map] at hlength
  have hextra := hrest (c.lineage.length + 1 - names.length)
  rw [Nat.add_sub_cancel' (by omega)] at hextra
  exact ⟨enough, hextra⟩

/-! ### Runs -/

theorem RunCall.run_eq {r : MemberRef} {arguments : List Value} {t u v : Thread} {i : Invocation}
    {f : Fault} {fuel : Nat} (h : RunCall env r arguments t i u) (ha : t.world.area.Linked)
    (hexec : execute env fuel i u = some (.error f, v)) :
    ∃ enough, run env enough r arguments t = some (.error f, v) := by
  cases h with
  | @initializer c w i u hload h =>
    have hnext := World.onArea_eq hload
    have hopened : Evolves env t.world.area w.area := .step (.refl env _) (.of_ensure hnext)
    have hclass : w.area.class? c.name = some c := by
      have hensured := Loader.ensure_class? hnext
      rwa [MethodArea.name_of_class? hensured]
    obtain ⟨enough, hinit⟩ := h.initializeClass_eq hn (hopened.linked ha) hclass hexec
    refine ⟨enough, ?_⟩
    rw [run, hload]
    simp only [hinit]
  | @entry c w fuel' i u hload hinit hentry =>
    refine ⟨max fuel' fuel, ?_⟩
    have hinit' : initializeClass env (max fuel' fuel) c { t with world := w } = some (.ok (), u) :=
      initializeWithin_mono (Nat.le_max_left fuel' fuel) _ hinit
    rw [run, hload]
    simp only [hinit', hentry]
    exact execute_mono (Nat.le_max_right fuel' fuel) hexec

theorem RunCall.run_eq_of_step {r : MemberRef} {arguments : List Value} {t u v u' : Thread}
    {i : Invocation} {f : Fault} {pc : Nat} (h : RunCall env r arguments t i u)
    (hstate : LoopState env i u v pc) (ha : t.world.area.Linked)
    (hstep : Thread.step env u.depth v pc = .finished (.error f) u') :
    ∃ enough, run env enough r arguments t = some (.error f, u') := by
  obtain ⟨fuel, hexec⟩ := hstate.execute_eq hstep
  exact h.run_eq hn ha hexec

end

end Jvm.Thread
