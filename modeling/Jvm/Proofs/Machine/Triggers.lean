import Jvm.Proofs.Machine.Initialization
import Jvm.Proofs.Machine.Untouched

/-!
# What starts a class

A class that has an initialiser is started together with a call of this initialiser, and in no other
way: loading, stores, natives and the work on a started class leave all marks alone. A step of the
loop makes such a call on top of the frames that are there, or it makes none.
-/

namespace Jvm

open MethodArea (Evolves)

/-! ### Marks -/

namespace MethodArea

/-- No class has been started on the way from `a` to `b`. -/
def StartsNone (a b : MethodArea) : Prop := ∀ name, b.Started name → a.Started name

variable {a b c : MethodArea}

theorem StartsNone.refl (a : MethodArea) : a.StartsNone a := fun _ h => h

theorem StartsNone.trans (hab : a.StartsNone b) (hbc : b.StartsNone c) : a.StartsNone c :=
  fun name h => hab name (hbc name h)

theorem Extended.startsNone (h : a.Extended b) : a.StartsNone b := by
  rintro name ⟨e, hentry, hstarted⟩
  rcases h.fresh hentry with hold | hfresh
  · exact ⟨e, hold, hstarted⟩
  · rw [hfresh.started] at hstarted
    cases hstarted

theorem startsNone_setStatic {cls : Class} {name descriptor : String} {v : Value}
    (h : a.setStatic cls name descriptor v = .ok b) : a.StartsNone b := by
  obtain ⟨slot, -, rfl⟩ := setStatic_eq h
  rintro n ⟨e, hentry, hstarted⟩
  rw [entry?_modify a (cls_stored slot _), Option.map_eq_some_iff] at hentry
  obtain ⟨e', hentry', rfl⟩ := hentry
  refine ⟨e', hentry', ?_⟩
  split at hstarted <;> exact hstarted

theorem Started.class? {env : Environment} {name : String} {k : Class} (ha : a.Linked)
    (hab : Evolves env a b) (h : a.Started name) (hk : b.class? name = some k) :
    a.class? name = some k := by
  obtain ⟨e, hentry, -⟩ := h
  have hclass : a.class? name = some e.cls := class?_eq_some_iff.mpr ⟨e, hentry, rfl⟩
  have hlater := hab.class? ha hclass
  rw [hk] at hlater
  rw [hclass, hlater]

end MethodArea

namespace Environment

open MethodArea

variable {env : Environment} {a b : MethodArea} {k : Class} {j : Invocation}

theorem initializer?_method {cls : Class} {m : Method} (h : env.initializer? k = some j)
    (hmethod : j.callee.method? = some (cls, m)) : cls = k := by
  simp only [initializer?, Option.map_eq_some_iff] at h
  obtain ⟨callee, hfound, rfl⟩ := h
  split at hfound
  · cases hfound
    cases hmethod
  · obtain ⟨m', -, rfl⟩ := Option.map_eq_some_iff.mp hfound
    cases hmethod
    rfl

/-- Claiming classes starts one that has an initialiser only by asking for this initialiser. -/
theorem claimFrom_starts {ks : List Class} {name : String}
    (h : (env.claimFrom ks a).2.Started name) :
    a.Started name ∨ ∃ k ∈ ks, k.name = name ∧
      ∀ j, env.initializer? k = some j → (env.claimFrom ks a).1 = some j := by
  induction ks generalizing a with
  | nil => exact .inl h
  | cons k rest ih =>
    rw [claimFrom] at h ⊢
    cases hclaim : a.claim? k.name with
    | none =>
      rw [hclaim] at h
      rcases ih h with hold | ⟨k', hk', hname, hasked⟩
      · exact .inl hold
      · exact .inr ⟨k', List.mem_cons_of_mem k hk', hname, hasked⟩
    | some marked =>
      obtain ⟨-, rfl⟩ := claim?_eq_some hclaim
      rw [hclaim] at h
      dsimp only at h ⊢
      have hfirst : (a.marked [k.name]).Started name → a.Started name ∨ k.name = name := by
        intro hstarted
        rcases started_marked.mp hstarted with hold | ⟨hmem, -⟩
        · exact .inl hold
        · exact .inr (List.mem_singleton.mp hmem).symm
      cases hinit : env.initializer? k with
      | some i =>
        rw [hinit] at h
        refine (hfirst h).imp_right fun hname => ?_
        refine ⟨k, List.mem_cons_self, hname, fun j hj => ?_⟩
        rw [hinit] at hj
        exact hj
      | none =>
        rw [hinit] at h
        rcases ih h with hold | ⟨k', hk', hname, hasked⟩
        · refine (hfirst hold).imp_right fun hname => ?_
          refine ⟨k, List.mem_cons_self, hname, fun j hj => ?_⟩
          rw [hinit] at hj
          cases hj
        · exact .inr ⟨k', List.mem_cons_of_mem k hk', hname, hasked⟩

theorem initStep_starts {c : Class} {r : Except Fault (Option Invocation)} (ha : a.Linked)
    (hc : a.class? c.name = some c) (h : env.initStep c a = (r, b))
    (hk : b.class? k.name = some k) (hstarted : b.Started k.name)
    (hj : env.initializer? k = some j) : a.Started k.name ∨ r = .ok (some j) := by
  obtain rfl : (env.initStep c a).2 = b := congrArg Prod.snd h
  obtain rfl : (env.initStep c a).1 = r := congrArg Prod.fst h
  rcases claimFrom_starts hstarted with hold | ⟨k', hk', hname, hasked⟩
  · exact .inl hold
  · -- Of that name only one class is loaded.
    have hloaded : a.class? k'.name = some k' := ha.lineage hc (List.mem_reverse.mp hk')
    have hop : Operation env a (env.initStep c a).2 := .start hc
    have hlater := hop.class? ha hloaded
    rw [hname, hk] at hlater
    cases hlater
    refine .inr ?_
    show Except.ok (env.claimFrom c.lineage.reverse a).1 = .ok (some j)
    rw [hasked j hj]

end Environment

theorem ClassUse.perform_startsNone (env : Environment) (x : ClassUse) (s : Scene) :
    s.world.area.StartsNone (x.perform env s).2.world.area := by
  have hkeeps : ∀ {m : Exec Step},
      Effect.Keeps (Scene.Loading s.world.area.StartsNone s.world.heap.classes) m →
      s.world.area.StartsNone (m s).2.world.area :=
    fun hm => (hm s ⟨.refl _, rfl⟩).1.area
  cases x with
  | read decl r =>
    exact hkeeps (Effect.Keeps.read.bind fun _ => (Effect.Keeps.ofExcept _).bind fun _ =>
      (Scene.Loading.yields_pushNext _).keeps)
  | write decl r =>
    simp only [ClassUse.perform, Effect.bind_apply, Scene.onFrame, Effect.zoom]
    rcases Frame.popKind (Kind.ofDescriptor? r.descriptor) s.frame with ⟨f | v, frame⟩
    · exact .refl _
    · simp only [Effect.read, Effect.ofExcept]
      cases hset : s.world.area.setStatic decl r.name r.descriptor v with
      | error f => exact .refl _
      | ok b => exact MethodArea.startsNone_setStatic hset
  | allocate c => exact .refl _
  | bind decl m r =>
    exact hkeeps ((Scene.Loading.keeps_popArguments _).bind fun _ =>
      Scene.Loading.keeps_call _ _ _ _ _)

theorem Environment.execute_evolves {env : Environment} {depth : Nat} {i : Instruction}
    {s t : Scene} {r : Except Fault Step} (ha : s.world.area.Linked)
    (h : env.execute depth i s = (r, t)) :
    Evolves env s.world.area t.world.area ∧ ∀ step, r = .ok step → step.Known env := by
  obtain ⟨hkept, hknown⟩ :=
    (Invariant.evolution env).execute_known ha (Invariant.evolution_scene env s) h
  exact ⟨hkept.world.evolves, hknown⟩

/-- An instruction starts a class that has an initialiser only by asking for this initialiser. -/
theorem Environment.execute_starts {env : Environment} {depth : Nat} {i : Instruction}
    {s t : Scene} {r : Except Fault Step} {k : Class} {j : Invocation} (ha : s.world.area.Linked)
    (h : env.execute depth i s = (r, t)) (hk : t.world.area.class? k.name = some k)
    (hstarted : t.world.area.Started k.name) (hj : env.initializer? k = some j) :
    s.world.area.Started k.name ∨ r = .ok (.invoke j true) := by
  cases hfind? : ClassUse.find? env s.frame.pool i with
  | none =>
    have hloads := execute_loads (env.loader.preserves_extended s.world.area) hfind? (.refl _) depth
    rw [h] at hloads
    exact .inl (hloads.1.area.startsNone _ hstarted)
  | some find =>
    have hfound : ∀ {r b}, find s.world.area = (r, b) → s.world.area.StartsNone b := by
      intro r b hfind
      have hkeeps := ClassUse.keeps_of_find? hfind? (env.loader.preserves_extended s.world.area)
      exact (hkeeps.apply (.refl _) hfind).startsNone
    have hclaimed : ∀ {x b r b'}, find s.world.area = (.ok x, b) →
        env.initStep x.subject b = (r, b') → b'.class? k.name = some k → b'.Started k.name →
        s.world.area.Started k.name ∨ r = .ok (some j) := by
      intro x b r b' hfind hnext hk' hstarted'
      have hb : b.Linked :=
        (ClassUse.keeps_of_find? hfind? env.loader.preserves_linked).apply ha hfind
      have hx := ClassUse.class?_of_find? hfind? ha hfind
      refine (initStep_starts hb hx hnext hk' hstarted' hj).imp_left fun hold => ?_
      exact hfound hfind _ hold
    have houtcome := ClassUse.execute_outcome hfind? ha depth
    rw [h] at houtcome
    generalize hresult : (r, t) = result at houtcome
    cases houtcome with
    | unresolved hfind hstatics =>
      cases hresult
      exact .inl (hfound hfind _ hstarted)
    | pending hfind hnext hstatics =>
      cases hresult
      refine (hclaimed hfind hnext hk hstarted).imp_right fun hasked => ?_
      cases hasked
      rfl
    | @performed x b b' hfind hdone hstatics _ =>
      -- The work on the class starts nothing.
      obtain rfl : (x.perform env (s.withArea b')).2 = t := (congrArg Prod.snd hresult).symm
      have hbefore : b'.Started k.name := x.perform_startsNone env (s.withArea b') _ hstarted
      have hb : b.Linked :=
        (ClassUse.keeps_of_find? hfind? env.loader.preserves_linked).apply ha hfind
      have hx := ClassUse.class?_of_find? hfind? ha hfind
      have hop : MethodArea.Operation env b b' := .of_initStep hx hdone
      have hnow := Invariant.evolution_scene env (s.withArea b')
      have hlater := ((Invariant.evolution env).perform_plain hnow (hop.class? hb hx)).1
      have hk' := hbefore.class? (hop.linked hb) hlater.world.evolves hk
      refine (hclaimed hfind hdone hk' hbefore).imp_right fun hasked => ?_
      cases hasked

/-! ### Natives -/

def Environment.NativesStartNone (env : Environment) : Prop :=
  ∀ r run, env.natives.find? r = some run → ∀ site arguments (w : World),
    w.area.StartsNone (run site arguments w).2.area

theorem Environment.NativesStartNone.apply {env : Environment} (h : env.NativesStartNone)
    {ref : MemberRef} {run : Native} {site : CallSite} {arguments : List Value} {w w' : World}
    {r : Except Fault Value} (hrun : env.natives.find? ref = some run)
    (hcall : run site arguments w = (r, w')) : w.area.StartsNone w'.area := by
  have hkept := h ref run hrun site arguments w
  rwa [hcall] at hkept

theorem Native.keeps_standardDescriptors {I : World → Prop} {c : Class}
    (hnew : ∀ w, I w → I { w with heap := (w.heap.newInstance c).2 })
    (hfield : ∀ w heap r key v, w.heap.setField? r key v = some heap → I w → I { w with heap })
    (hstatic : ∀ w area name descriptor v,
      w.area.setStatic c name descriptor v = .ok area → I w → I { w with area })
    (fd : Nat) (fields : List String) : Effect.Keeps I (standardDescriptors c fd fields) := by
  induction fields generalizing fd with
  | nil => exact .pure True.intro
  | cons field rest ih =>
    have hallocate : Effect.Keeps I (World.newInstance c) :=
      fun w hw => ⟨hnew w hw, fun _ _ => True.intro⟩
    rw [standardDescriptors]
    split
    · refine hallocate.bind fun r => (Effect.Keeps.update fun w hw => ?_).bind fun _ => ?_
      · split
        · rename_i heap hset
          exact hfield w heap _ _ _ hset hw
        · exact hw
      · refine Effect.Yields.read_bind fun w hw => ?_
        cases hset : w.area.setStatic c field ("L" ++ fileDescriptorName ++ ";") (.reference r) with
        | error f => exact ⟨hw, Effect.of_error⟩
        | ok area => exact ih (fd + 1) { w with area } (hstatic w area _ _ _ hset hw)
    · exact ih (fd + 1)

theorem Environment.nativesStartNone_standard {env : Environment} (h : env.natives = .standard) :
    env.NativesStartNone := by
  intro r run hrun site arguments w
  rw [h] at hrun
  rcases NativeTable.standard_cases hrun with rfl | rfl | rfl | rfl
  · exact .refl _
  · unfold Native.getClass
    split <;> exact .refl _
  · unfold Native.hashCode
    split <;> exact .refl _
  · have hkeeps : Effect.Keeps (fun v : World => w.area.StartsNone v.area)
        (Native.fileDescriptorInit site arguments) := by
      refine Effect.Keeps.read.bind fun v => ?_
      split
      · exact .fail _
      · refine (Native.keeps_standardDescriptors (fun _ h => h) (fun _ _ _ _ _ _ h => h) ?_ 0
          _).bind fun _ => .pure True.intro
        exact fun v area _ _ _ hset h => h.trans (MethodArea.startsNone_setStatic hset)
    exact (hkeeps w (.refl _)).1

/-! ### One step -/

namespace Thread

/-- The methods whose frames are on the stack, that of the lowest frame first. -/
def owners (t : Thread) : List (Class × Method) := t.frames.reverse.map Frame.owner

theorem length_owners (t : Thread) : t.owners.length = t.depth := by
  simp [owners, depth]

theorem owners_cons (f : Frame) (below : List Frame) (w : World) :
    owners ⟨f :: below, w⟩ = owners ⟨below, w⟩ ++ [f.owner] := by
  simp [owners]

theorem owners_unwind (t : Thread) (base : Nat) : (t.unwind base).owners <+: t.owners := by
  refine List.IsPrefix.map Frame.owner (List.reverse_prefix.mpr ?_)
  exact List.drop_suffix _ _

theorem owners_returning (base : Nat) (value : Value) (below : List Frame) (w : World) :
    (returning base value below w).thread.owners = owners ⟨below, w⟩ := by
  unfold returning
  split
  · rfl
  · split
    · rfl
    · rename_i caller rest _
      show owners ⟨caller.received value :: rest, w⟩ = _
      rw [owners_cons, owners_cons, Frame.owner_received]

variable {env : Environment}

theorem request?_of_execute {f : Frame} {below : List Frame} {w : World} {pc : Nat} {byte : UInt8}
    {i : Instruction} {j : Invocation} {s : Scene} (hpc : f.code.bytes[pc]? = some byte)
    (hat : f.code.at? pc = some i)
    (hexec : env.execute (below.length + 1) i ⟨f, w⟩ = (.ok (.invoke j true), s)) :
    request? env ⟨f :: below, w⟩ pc = some j := by
  simp only [request?, hpc, hat, depth, List.length_cons, hexec]

/-- A step leaves the frames of a lower part of the stack, or all of them and the new one of a
call. -/
theorem step_owners (env : Environment) (base : Nat) (t : Thread) (pc : Nat) :
    (step env base t pc).thread.owners <+: t.owners ∨
      ∃ cls m, (step env base t pc).thread.owners = t.owners ++ [(cls, m)] ∧
        ∀ j, request? env t pc = some j → j.callee = .body cls m := by
  obtain ⟨_ | ⟨f, below⟩, w⟩ := t
  · exact .inl List.prefix_rfl
  obtain ⟨m, htakes, hstep⟩ := exists_takes env f below w pc
  rw [hstep]
  have hsame : ∀ (g : Frame) (v : World), g.owner = f.owner →
      owners ⟨g :: below, v⟩ = owners ⟨f :: below, w⟩ := by
    intro g v hg
    rw [owners_cons, owners_cons, hg]
    rfl
  have hstays : ∀ (g : Frame) (v : World), g.owner = f.owner →
      owners ⟨g :: below, v⟩ <+: owners ⟨f :: below, w⟩ := by
    intro g v hg
    exact hsame g v hg ▸ List.prefix_rfl
  have hlower : ∀ v : World, owners ⟨below, v⟩ <+: owners ⟨f :: below, w⟩ := by
    intro v
    rw [owners_cons]
    exact List.prefix_append _ _
  cases htakes with
  | offEnd hpc =>
    rw [Move.progress, owners_returning]
    exact .inl (hlower w)
  | unknown hpc hat => exact .inl (owners_unwind ⟨f :: below, w⟩ base)
  | @fails byte i fault s hpc hat hexec =>
    have howner : s.frame.owner = f.owner := by
      have hkept := env.owner_execute (below.length + 1) i ⟨f, w⟩
      rwa [hexec] at hkept
    rw [← hsame s.frame s.world howner]
    exact .inl (owners_unwind ⟨s.frame :: below, s.world⟩ base)
  | @follows byte i outcome s m hpc hat hexec hfollows =>
    have howner : s.frame.owner = f.owner := by
      have hkept := env.owner_execute (below.length + 1) i ⟨f, w⟩
      rwa [hexec] at hkept
    cases hfollows with
    | next | jump => exact .inl (hstays s.frame _ howner)
    | ret =>
      rw [Move.progress, owners_returning]
      exact .inl (hlower _)
    | badJump =>
      rw [← hsame s.frame s.world howner]
      exact .inl (owners_unwind ⟨s.frame :: below, s.world⟩ base)
    | @native j retry run method? value world' hcallee hrun =>
      refine .inl (hstays _ _ ?_)
      rw [Frame.owner_received]
      exact howner
    | @badNative j retry run method? fault world' hcallee hrun =>
      rw [← hsame (waiting s.frame i retry) world' howner]
      exact .inl (owners_unwind ⟨waiting s.frame i retry :: below, world'⟩ base)
    | @badCall j retry cls method fault hcallee hpush =>
      rw [← hsame (waiting s.frame i retry) s.world howner]
      exact .inl (owners_unwind ⟨waiting s.frame i retry :: below, s.world⟩ base)
    | @call j retry cls method callee hcallee hroom hmake =>
      refine .inr ⟨cls, method, ?_, fun j' hj' => ?_⟩
      · show owners ⟨callee :: waiting s.frame i retry :: below, _⟩ = _
        rw [owners_cons, Frame.owner_make hmake, hsame (waiting s.frame i retry) _ howner]
      · obtain ⟨f', below', i', s', byte', hframes, -, hat', hexec'⟩ := request?_eq_some hj'
        cases hframes
        cases hat.symm.trans hat'
        cases hexec.symm.trans hexec'
        exact hcallee

theorem progress_world (m : Move) (base : Nat) (below : List Frame) :
    (m.progress base below).thread.world = (m.thread below).world := by
  cases m with
  | leave value world =>
    rw [Move.progress, returning.eq_def]
    split
    · rfl
    · split <;> rfl
  | _ => rfl

theorem Follows.startsNone (hs : env.NativesStartNone) {i : Instruction} {f : Frame}
    {below : List Frame} {w : World} {outcome : Step} {m : Move} (hknown : outcome.Known env)
    (h : Follows env i f below w outcome m) :
    w.area.StartsNone (m.thread below).world.area := by
  cases h with
  | native hcallee hrun | badNative hcallee hrun =>
    obtain ⟨r, hr⟩ := hknown _ _ hcallee
    exact hs.apply hr hrun
  | _ => exact .refl _

theorem step_starts (hn : env.NativesEvolve) (hs : env.NativesStartNone) {t : Thread}
    (ha : t.world.area.Linked) (base pc : Nat) {k : Class} {j : Invocation}
    (hk : (step env base t pc).thread.world.area.class? k.name = some k)
    (hstarted : (step env base t pc).thread.world.area.Started k.name)
    (hj : env.initializer? k = some j) :
    t.world.area.Started k.name ∨ request? env t pc = some j := by
  obtain ⟨_ | ⟨f, below⟩, w⟩ := t
  · exact .inl hstarted
  obtain ⟨m, htakes, hstep⟩ := exists_takes env f below w pc
  cases htakes with
  | offEnd hpc | unknown hpc hat =>
    rw [hstep, progress_world] at hstarted
    exact .inl hstarted
  | @fails byte i fault s hpc hat hexec =>
    rw [hstep, progress_world] at hk hstarted
    rcases env.execute_starts ha hexec hk hstarted hj with hold | hasked
    · exact .inl hold
    · cases hasked
  | @follows byte i outcome s m hpc hat hexec hfollows =>
    obtain ⟨hevolves, hknown⟩ := env.execute_evolves ha hexec
    have hs' : s.world.area.Linked := hevolves.linked ha
    have hlater := step_evolves_after hn hpc hat hexec hs' (hknown _ rfl) base
    rw [hstep, progress_world] at hk hstarted hlater
    have hbefore := hfollows.startsNone hs (hknown _ rfl) _ hstarted
    have hk' := hbefore.class? hs' hlater hk
    refine (env.execute_starts ha hexec hk' hbefore hj).imp_right fun hasked => ?_
    cases hasked
    exact request?_of_execute hpc hat hexec

end Thread

end Jvm
