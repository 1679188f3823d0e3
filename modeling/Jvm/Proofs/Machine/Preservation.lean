import Jvm.Proofs.Machine.Balance
import Jvm.Proofs.Machine.Invariance

/-!
# What runs keep

An invariant that instructions keep is kept by the steps of a loop, by a call, by the initialisers
that a class still needs and by a run. So it holds in every state on the way.
-/

namespace Jvm

open MethodArea (Evolves)

namespace Invariant

variable {env : Environment} (I : Invariant env) {a b : MethodArea}

structure Thread (a : MethodArea) (t : Thread) : Prop where
  frames : ∀ f ∈ t.frames, I.Frame f
  world : I.World a t.world

variable {I}

theorem World.rebase {w : Jvm.World} (hab : Evolves env a b) (hw : I.World b w) : I.World a w :=
  ⟨hab.trans hw.evolves, hw.holds⟩

theorem Thread.rebase {t : Jvm.Thread} (hab : Evolves env a b) (ht : I.Thread b t) :
    I.Thread a t :=
  ⟨ht.frames, ht.world.rebase hab⟩

theorem Thread.withWorld {t : Jvm.Thread} {w : Jvm.World} (ht : I.Thread a t)
    (hw : I.World b w) : I.Thread b { t with world := w } :=
  ⟨ht.frames, hw⟩

theorem Thread.unwind {t : Jvm.Thread} (ht : I.Thread a t) (base : Nat) :
    I.Thread a (t.unwind base) :=
  ⟨fun f hf => ht.frames f (List.mem_of_mem_drop hf), ht.world⟩

variable (I)

/-! ### Steps -/

theorem frame_of_make {cls : Class} {method : Method} {receiver : Option Value}
    {parameters : List FieldType} {arguments : List Value} {serial : Nat} {observed : Bool}
    {f : Jvm.Frame}
    (h : Frame.make cls method receiver parameters arguments serial observed = .ok f) :
    I.Frame f := by
  obtain ⟨code, slots, -, -, -, -, rfl⟩ := Frame.make_eq_ok h
  exact nofun

/-- The registered natives keep the world as it should be. -/
def Natives : Prop :=
  ∀ r run, env.natives.find? r = some run → ∀ site arguments a w, a.Linked → I.World a w →
    I.World a (run site arguments w).2

def Progress (a : MethodArea) : Thread.Progress → Prop
  | .running t _ => I.Thread a t
  | .finished _ t => I.Thread a t

end Invariant

def Thread.Move.thread (below : List Frame) : Thread.Move → Thread
  | stay f _ world => ⟨f :: below, world⟩
  | enter callee f world => ⟨callee :: f :: below, world⟩
  | leave _ world => ⟨below, world⟩
  | abort f _ world => ⟨f :: below, world⟩

namespace Invariant

variable {env : Environment} (I : Invariant env) {a b : MethodArea}

theorem progress_of_move {m : Thread.Move} {below : List Jvm.Frame}
    (h : I.Thread a (m.thread below)) (base : Nat) : I.Progress a (m.progress base below) := by
  cases m with
  | stay f pc world => exact h
  | enter callee f world => exact h
  | abort f fault world => exact h.unwind base
  | leave value world =>
    cases below with
    | nil => exact h
    | cons caller rest =>
      simp only [Thread.Move.progress, Thread.returning]
      split
      · exact h
      · refine ⟨?_, h.world⟩
        rw [List.forall_mem_cons]
        have hframes := List.forall_mem_cons.mp h.frames
        exact ⟨I.received hframes.1 value, hframes.2⟩

theorem push_thread {cls : Class} {method : Method} {i : Invocation} {t u : Jvm.Thread}
    (ht : I.Thread a t) (h : t.push env cls method i = .ok u) : I.Thread a u := by
  obtain ⟨-, f, hmake, rfl⟩ := Thread.push_eq_ok_iff.mp h
  exact ⟨List.forall_mem_cons.mpr ⟨I.frame_of_make hmake, ht.frames⟩, ht.world.evolves,
    ht.world.holds⟩

theorem start_thread {c : Class} {t : Jvm.Thread} {w : Jvm.World}
    {r : Except Fault (Option Invocation)} (ha : a.Linked) (hc : a.class? c.name = some c)
    (ht : I.Thread a t) (h : World.onArea (env.initStep c) t.world = (r, w)) :
    I.Thread a { t with world := w } ∧ ∀ i, r = .ok (some i) → i.Known env := by
  have hlinked := ht.world.evolves.linked ha
  have hloaded := ht.world.evolves.class? ha hc
  cases h
  refine ⟨⟨ht.frames, ht.world.evolves.step (.start hloaded), ?_⟩, fun i hi => ?_⟩
  · exact I.start hlinked hloaded ht.world.holds
  · obtain ⟨k, -, -, -, hk⟩ := env.initStep_some hlinked hloaded (Prod.ext hi rfl)
    exact Environment.initializer?_known hk

theorem load_thread {name : String} {t : Jvm.Thread} {w : Jvm.World} {r : Except Fault Class}
    (ht : I.Thread a t) (h : World.onArea (env.loader.ensure name) t.world = (r, w)) :
    I.Thread a { t with world := w } ∧ ∀ c, r = .ok c → w.area.class? c.name = some c := by
  cases h
  refine ⟨⟨ht.frames, ht.world.evolves.step (.load name), I.load name ht.world.holds⟩, ?_⟩
  intro c hc
  have hclass := Loader.ensure_class? (Prod.ext hc rfl)
  have hname := MethodArea.name_of_class? hclass
  rwa [hname]

theorem entryCall_known {c : Class} {r : MemberRef} {arguments : List Value} {i : Invocation}
    (h : Thread.entryCall env c r arguments = .ok i) : i.Known env := by
  unfold Thread.entryCall at h
  split at h
  · cases h
  · rename_i m _
    split at h
    · cases h
    · cases htype : m.type with
      | error f =>
        rw [htype] at h
        cases h
      | ok d =>
        rw [htype] at h
        exact Environment.bind_known h

section

variable {I} (hn : I.Natives)

include hn

theorem Natives.apply {ref : MemberRef} {run : Native} {site : CallSite}
    {arguments : List Value} {w w' : Jvm.World} {r : Except Fault Value}
    (hrun : env.natives.find? ref = some run) (ha : a.Linked) (hw : I.World a w)
    (h : run site arguments w = (r, w')) : I.World a w' := by
  have hkept := hn ref run hrun site arguments a w ha hw
  rwa [h] at hkept

theorem Natives.follows_thread {i : Instruction} {f : Jvm.Frame} {below : List Jvm.Frame}
    {w : Jvm.World} {step : Step} {m : Thread.Move} (ha : a.Linked)
    (ht : I.Thread a ⟨f :: below, w⟩) (hstep : step.Known env)
    (h : Thread.Follows env i f below w step m) : I.Thread a (m.thread below) := by
  obtain ⟨hf, hbelow⟩ := List.forall_mem_cons.mp ht.frames
  have hwaiting : ∀ retry, I.Frame (Thread.waiting f i retry) := fun _ => hf
  cases h with
  | next | jump | badJump => exact ht
  | ret => exact ⟨hbelow, ht.world⟩
  | native hcallee hrun =>
    obtain ⟨r, hr⟩ := hstep _ _ hcallee
    have hw := hn.apply hr ha ht.world hrun
    exact ⟨List.forall_mem_cons.mpr ⟨I.received (hwaiting _) _, hbelow⟩, hw⟩
  | badNative hcallee hrun =>
    obtain ⟨r, hr⟩ := hstep _ _ hcallee
    have hw := hn.apply hr ha ht.world hrun
    exact ⟨List.forall_mem_cons.mpr ⟨hwaiting _, hbelow⟩, hw⟩
  | call hcallee hroom hmake =>
    refine ⟨?_, ht.world.evolves, ht.world.holds⟩
    refine List.forall_mem_cons.mpr ⟨I.frame_of_make hmake, ?_⟩
    exact List.forall_mem_cons.mpr ⟨hwaiting _, hbelow⟩
  | badCall => exact ⟨List.forall_mem_cons.mpr ⟨hwaiting _, hbelow⟩, ht.world⟩

theorem Natives.takes_thread {f : Jvm.Frame} {below : List Jvm.Frame} {w : Jvm.World} {pc : Nat}
    {m : Thread.Move} (ha : a.Linked) (ht : I.Thread a ⟨f :: below, w⟩)
    (h : Thread.Takes env f below w pc m) : I.Thread a (m.thread below) := by
  obtain ⟨hf, hbelow⟩ := List.forall_mem_cons.mp ht.frames
  have hs : I.Scene a ⟨f, w⟩ := ⟨hf, ht.world⟩
  cases h with
  | offEnd hpc => exact ⟨hbelow, ht.world⟩
  | unknown hpc hat => exact ht
  | fails hpc hat hexec =>
    have hkept := (I.execute_known ha hs hexec).1
    exact ⟨List.forall_mem_cons.mpr ⟨hkept.frame, hbelow⟩, hkept.world⟩
  | follows hpc hat hexec hfollows =>
    obtain ⟨hkept, hknown⟩ := I.execute_known ha hs hexec
    refine hn.follows_thread ha ?_ (hknown _ rfl) hfollows
    exact ⟨List.forall_mem_cons.mpr ⟨hkept.frame, hbelow⟩, hkept.world⟩

theorem Natives.step_progress {t : Jvm.Thread} (ha : a.Linked) (ht : I.Thread a t) (base pc : Nat) :
    I.Progress a (Thread.step env base t pc) := by
  obtain ⟨_ | ⟨f, below⟩, w⟩ := t
  · exact ht
  · obtain ⟨m, htakes, hstep⟩ := Thread.exists_takes env f below w pc
    rw [hstep]
    exact I.progress_of_move (hn.takes_thread ha ht htakes) base

/-! ### Calls and runs -/

theorem Natives.loop_thread {base : Nat} {result : Except Fault Value} {u : Jvm.Thread} (fuel : Nat)
    {t : Jvm.Thread} {pc : Nat} (ha : a.Linked) (ht : I.Thread a t)
    (h : Thread.loop env base fuel t pc = some (result, u)) : I.Thread a u := by
  induction fuel generalizing t pc with
  | zero => cases h
  | succ fuel ih =>
    have hkept := hn.step_progress ha ht base pc
    rw [Thread.loop] at h
    cases hstep : Thread.step env base t pc with
    | running v pc' =>
      rw [hstep] at hkept h
      exact ih hkept h
    | finished r v =>
      rw [hstep] at hkept h
      cases h
      exact hkept

theorem Natives.callNative_thread {r : MemberRef} {run : Native}
    (hrun : env.natives.find? r = some run) (ha : a.Linked) (i : Invocation) {t : Jvm.Thread}
    (ht : I.Thread a t) :
    I.Thread a (Thread.callNative run i t).2 := by
  unfold Thread.callNative
  split <;> rename_i hcall <;> exact ht.withWorld (hn.apply hrun ha ht.world hcall)

theorem Natives.execute_thread {fuel : Nat} {i : Invocation} {t u : Jvm.Thread}
    {result : Except Fault Value} (ha : a.Linked) (hi : i.Known env) (ht : I.Thread a t)
    (h : Thread.execute env fuel i t = some (result, u)) : I.Thread a u := by
  unfold Thread.execute at h
  cases hcallee : i.callee with
  | native run method? =>
    rw [hcallee] at h
    obtain ⟨r, hr⟩ := hi run method? hcallee
    have hkept := hn.callNative_thread hr ha i ht
    rwa [Option.some.inj h] at hkept
  | body cls method =>
    rw [hcallee] at h
    cases hpush : t.push env cls method i with
    | error fault =>
      simp only [hpush] at h
      cases h
      exact ht
    | ok entered =>
      simp only [hpush] at h
      exact hn.loop_thread fuel ha (I.push_thread ht hpush) h

theorem Natives.initializeWithin_thread {fuel : Nat} {c : Class} {result : Except Fault Unit}
    {u : Jvm.Thread} (n : Nat) {t : Jvm.Thread} (ha : a.Linked) (hc : a.class? c.name = some c)
    (ht : I.Thread a t) (h : Thread.initializeWithin env fuel c n t = some (result, u)) :
    I.Thread a u := by
  induction n generalizing t with
  | zero =>
    cases h
    exact ht
  | succ n ih =>
    rw [Thread.initializeWithin] at h
    split at h
    · rename_i hstep
      cases h
      exact (I.start_thread ha hc ht hstep).1
    · rename_i hstep
      cases h
      exact (I.start_thread ha hc ht hstep).1
    · rename_i i world hstep
      obtain ⟨hstarted, hknown⟩ := I.start_thread ha hc ht hstep
      split at h
      · cases h
      · rename_i hexec
        cases h
        exact hn.execute_thread ha (hknown i rfl) hstarted hexec
      · rename_i hexec
        exact ih (hn.execute_thread ha (hknown i rfl) hstarted hexec) h

theorem Natives.run_thread {fuel : Nat} {r : MemberRef} {arguments : List Value} {t u : Jvm.Thread}
    {result : Except Fault Value} (ha : a.Linked) (ht : I.Thread a t)
    (h : Thread.run env fuel r arguments t = some (result, u)) : I.Thread a u := by
  unfold Thread.run at h
  split at h
  · rename_i hload
    cases h
    exact (I.load_thread ht hload).1
  · rename_i c w hload
    obtain ⟨hloaded, hclass⟩ := I.load_thread ht hload
    -- From here on the class is loaded, so this is the area that everything is related to.
    have hevolves := hloaded.world.evolves
    have hw : w.area.Linked := hevolves.linked ha
    have hnow : I.Thread w.area { t with world := w } :=
      ⟨hloaded.frames, .refl env w.area, hloaded.world.holds⟩
    split at h
    · cases h
    · rename_i hinit
      cases h
      exact (hn.initializeWithin_thread _ hw (hclass c rfl) hnow hinit).rebase hevolves
    · rename_i v hinit
      have hv := (hn.initializeWithin_thread _ hw (hclass c rfl) hnow hinit).rebase hevolves
      split at h
      · cases h
        exact hv
      · rename_i i hentry
        exact hn.execute_thread ha (entryCall_known hentry) hv h

/-! ### The states on the way -/

theorem Natives.loopState_thread {i : Invocation} {t u : Jvm.Thread} {pc : Nat} (ha : a.Linked)
    (ht : I.Thread a t) (h : Thread.LoopState env i t u pc) : I.Thread a u := by
  induction h with
  | start hcallee hpush => exact I.push_thread ht hpush
  | @step u v pc pc' h hstep ih =>
    have hkept := hn.step_progress ha ih t.depth pc
    rw [hstep] at hkept
    exact hkept

theorem Natives.initializerCall_thread {c : Class} {t u : Jvm.Thread} {i : Invocation}
    (ha : a.Linked) (hc : a.class? c.name = some c) (ht : I.Thread a t)
    (h : Thread.InitializerCall env c t i u) : I.Thread a u ∧ i.Known env := by
  induction h with
  | first hclaim =>
    obtain ⟨hstarted, hknown⟩ := I.start_thread ha hc ht hclaim
    exact ⟨hstarted, hknown _ rfl⟩
  | later hclaim hexec h ih =>
    obtain ⟨hstarted, hknown⟩ := I.start_thread ha hc ht hclaim
    exact ih (hn.execute_thread ha (hknown _ rfl) hstarted hexec)

/-- A call of a run is made on a thread that is as it should be, with the classes that were there
when the run began still there. -/
theorem Natives.runCall_thread {r : MemberRef} {arguments : List Value} {t u : Jvm.Thread}
    {i : Invocation} (ha : a.Linked) (ht : I.Thread a t)
    (h : Thread.RunCall env r arguments t i u) : I.Thread a u ∧ i.Known env := by
  cases h with
  | @initializer c w i u hload h =>
    obtain ⟨hloaded, hclass⟩ := I.load_thread ht hload
    have hevolves := hloaded.world.evolves
    have hnow : I.Thread w.area { t with world := w } :=
      ⟨hloaded.frames, .refl env w.area, hloaded.world.holds⟩
    obtain ⟨hu, hknown⟩ :=
      hn.initializerCall_thread (hevolves.linked ha) (hclass c rfl) hnow h
    exact ⟨hu.rebase hevolves, hknown⟩
  | @entry c w fuel i u hload hinit hentry =>
    obtain ⟨hloaded, hclass⟩ := I.load_thread ht hload
    have hevolves := hloaded.world.evolves
    have hnow : I.Thread w.area { t with world := w } :=
      ⟨hloaded.frames, .refl env w.area, hloaded.world.holds⟩
    have hu := hn.initializeWithin_thread _ (hevolves.linked ha) (hclass c rfl) hnow hinit
    exact ⟨hu.rebase hevolves, entryCall_known hentry⟩

end

end Invariant

/-- The states of a run: those before it and after its class was loaded, those in which it makes its
calls, those of the loops of these calls, and the one it ends in. -/
inductive Thread.RunState (env : Environment) (r : MemberRef) (arguments : List Value)
    (t : Thread) : Thread → Prop where
  | idle : RunState env r arguments t t
  | loaded {result : Except Fault Class} {world : World}
    (hload : World.onArea (env.loader.ensure r.className) t.world = (result, world)) :
    RunState env r arguments t { t with world }
  | calling {i : Invocation} {u : Thread} (hcall : RunCall env r arguments t i u) :
    RunState env r arguments t u
  | looping {i : Invocation} {u v : Thread} {pc : Nat} (hcall : RunCall env r arguments t i u)
    (hloop : LoopState env i u v pc) : RunState env r arguments t v
  | ended {fuel : Nat} {result : Except Fault Value} {u : Thread}
    (hrun : run env fuel r arguments t = some (result, u)) : RunState env r arguments t u

/-- An invariant that holds before a run holds in every state of the run. -/
theorem Invariant.Natives.runState_thread {env : Environment} {I : Invariant env} (hn : I.Natives)
    {a : MethodArea} {r : MemberRef} {arguments : List Value} {t u : Jvm.Thread} (ha : a.Linked)
    (ht : I.Thread a t) (h : Thread.RunState env r arguments t u) : I.Thread a u := by
  cases h with
  | idle => exact ht
  | loaded hload => exact (I.load_thread ht hload).1
  | calling hcall => exact (hn.runCall_thread ha ht hcall).1
  | looping hcall hloop =>
    exact hn.loopState_thread ha (hn.runCall_thread ha ht hcall).1 hloop
  | ended hrun => exact hn.run_thread ha ht hrun

/-! ### The standard natives -/

theorem NativeTable.standard_cases {r : MemberRef} {run : Native}
    (h : NativeTable.standard.find? r = some run) :
    run = Native.noop ∨ run = Native.getClass ∨ run = Native.hashCode ∨
      run = Native.fileDescriptorInit := by
  obtain ⟨before, after, hstandard, -⟩ := List.lookup_eq_some_iff.mp h
  have hmem : (r, run) ∈ NativeTable.standard := by simp [hstandard]
  have hall : ∀ entry ∈ NativeTable.standard, entry.2 = Native.noop ∨
      entry.2 = Native.getClass ∨ entry.2 = Native.hashCode ∨
      entry.2 = Native.fileDescriptorInit := by
    simp [NativeTable.standard]
  exact hall (r, run) hmem

section

open Effect

/-- A property of worlds that does not depend on the classes, nor on more of the heap than the number
of string objects. -/
structure World.Detached (I : World → Prop) : Prop where
  area {w : World} (a : MethodArea) (hw : I w) : I { w with area := a }
  heap {w : World} (h : Heap) (hmade : h.freshStrings = w.heap.freshStrings) (hw : I w) :
    I { w with heap := h }

theorem Heap.freshStrings_setField? {h h' : Heap} {r : Reference} {key : MemberRef} {v : Value}
    (hset : h.setField? r key v = some h') : h'.freshStrings = h.freshStrings := by
  cases r with
  | array n => cases hset
  | string content origin => cases hset
  | object n =>
    obtain ⟨i, -, hrest⟩ := Option.bind_eq_some_iff.mp hset
    obtain ⟨slot, -, hdone⟩ := Option.bind_eq_some_iff.mp hrest
    cases hdone
    rfl

variable {I : World → Prop} (hI : World.Detached I)

include hI

theorem World.Detached.standardDescriptors (c : Class) (fd : Nat) (fields : List String) :
    Keeps I (Native.standardDescriptors c fd fields) := by
  induction fields generalizing fd with
  | nil => exact .pure trivial
  | cons field rest ih =>
    rw [Native.standardDescriptors]
    split
    · have hnew : Keeps I (World.newInstance c) :=
        fun w hw => ⟨hI.heap _ rfl hw, fun _ _ => trivial⟩
      refine hnew.bind fun r => (Keeps.update fun w hw => ?_).bind fun _ => ?_
      · split
        · rename_i heap hset
          exact hI.heap heap (Heap.freshStrings_setField? hset) hw
        · exact hw
      · refine Keeps.read.bind fun v => ?_
        split
        · exact (Keeps.update fun w hw => hI.area _ hw).bind fun _ => ih (fd + 1)
        · exact (Yields.fail (P := fun _ => True) _).bind fun _ _ => ih (fd + 1)
    · exact ih (fd + 1)

/-- The standard natives change classes and instances only. -/
theorem World.Detached.standard {r : MemberRef} {run : Native}
    (hrun : NativeTable.standard.find? r = some run) (site : CallSite) (arguments : List Value) :
    Keeps I (run site arguments) := by
  rcases NativeTable.standard_cases hrun with rfl | rfl | rfl | rfl
  · exact .pure trivial
  · unfold Native.getClass
    split
    · exact .fail _
    · exact .fail _
    · exact .pure trivial
  · unfold Native.hashCode
    split
    · exact .fail _
    · exact .fail _
    · exact .pure trivial
    · exact .pure trivial
  · refine Keeps.read.bind fun v => ?_
    split
    · exact .fail _
    · exact (hI.standardDescriptors _ _ _).bind fun _ => .pure trivial

end

namespace Invariant

open Effect

variable {env : Environment} (I : Invariant env) {a : MethodArea}

theorem keeps_standardDescriptors (ha : a.Linked) (c : Class) (fd : Nat) (fields : List String) :
    Keeps (fun w => I.World a w ∧ w.area.class? c.name = some c)
      (Native.standardDescriptors c fd fields) := by
  induction fields generalizing fd with
  | nil => exact .pure trivial
  | cons field rest ih =>
    have hnew : Keeps (fun w => I.World a w ∧ w.area.class? c.name = some c)
        (World.newInstance c) :=
      fun w ⟨hw, hc⟩ => ⟨⟨⟨hw.evolves, I.allocate c hw.holds⟩, hc⟩, fun _ _ => trivial⟩
    rw [Native.standardDescriptors]
    split
    · refine hnew.bind fun r => (Keeps.update ?_).bind fun _ => ?_
      · rintro w ⟨hw, hc⟩
        split
        · rename_i heap hset
          exact ⟨⟨hw.evolves, I.putField hw.holds (I.good rfl) rfl hset⟩, hc⟩
        · exact ⟨hw, hc⟩
      · refine Yields.read_bind fun w ⟨hw, hc⟩ => ?_
        cases hset : w.area.setStatic c field ("L" ++ Native.fileDescriptorName ++ ";")
            (.reference r) with
        | error f => exact ⟨⟨hw, hc⟩, of_error⟩
        | ok b =>
          have hop : MethodArea.Operation env w.area b := .write hset
          refine ih (fd + 1) { w with area := b } ⟨⟨hw.evolves.step hop, ?_⟩, ?_⟩
          · exact I.putStatic hc hw.holds (I.good rfl) rfl hset
          · exact hop.class? (hw.evolves.linked ha) hc
    · exact ih (fd + 1)

theorem keeps_fileDescriptorInit (ha : a.Linked) (site : CallSite) (arguments : List Value) :
    Keeps (I.World a) (Native.fileDescriptorInit site arguments) := by
  refine Yields.read_bind fun w hw => ?_
  cases hclass : w.area.class? Native.fileDescriptorName with
  | none => exact ⟨hw, fun _ _ => trivial⟩
  | some c =>
    have hc : w.area.class? c.name = some c := by
      rw [MethodArea.name_of_class? hclass, hclass]
    have hfields : Keeps (fun w => I.World a w ∧ w.area.class? c.name = some c) (do
        Native.standardDescriptors c 0 ["in", "out", "err"]
        return Value.none) :=
      (I.keeps_standardDescriptors ha c 0 _).bind fun _ => .pure trivial
    exact ⟨(hfields w ⟨hw, hc⟩).1.1, fun _ _ => trivial⟩

theorem natives_of_standard (h : env.natives = .standard) : I.Natives := by
  intro r run hrun site arguments a w ha hw
  rw [h] at hrun
  rcases NativeTable.standard_cases hrun with rfl | rfl | rfl | rfl
  · exact hw
  · unfold Native.getClass
    split <;> exact hw
  · unfold Native.hashCode
    split <;> exact hw
  · exact (I.keeps_fileDescriptorInit ha site arguments w hw).1

end Invariant

end Jvm
