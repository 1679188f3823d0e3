import Mathlib
import Jvm.Proofs.Machine.Control
import Jvm.Proofs.Machine.Untouched

/-!
# The record of stores

An observer is handed to every frame of a run and is told about the stores of all of them, those of
interleaved calls and of initialisers in between. Frames are told apart by the number of the call
that made them. Taken by themselves, the stores recorded of one frame say what became of its locals:
replayed in order on the locals that it was made with, they give the locals that it has, at any time.
-/

namespace Jvm

open Scene (onFrame onWorld onArea)

/-! ### Replaying -/

def Store.told (stores : List Store) (serial : Nat) : List Store :=
  (stores.filter fun r => r.serial = serial).reverse

/-- The locals after a store: the slot has the value, and the slot after a `long` or a `double` is
empty. -/
def Store.applied (slots : Array Value) (r : Store) : Array Value :=
  if r.value.kind? = some .long ∨ r.value.kind? = some .double then
    (slots.setIfInBounds r.slot r.value).setIfInBounds (r.slot + 1) .none
  else slots.setIfInBounds r.slot r.value

def Frame.replay (slots : Array Value) (stores : List Store) : Array Value :=
  stores.foldl Store.applied slots

def World.reported (w : World) (serial : Nat) : List Store := Store.told w.stores serial

theorem Store.applied_eq (slots : Array Value) (r : Store) :
    applied slots r = Frame.storedSlots slots r.slot r.value := by
  unfold applied Frame.storedSlots Value.isWide
  cases r.value <;> rfl

theorem Store.told_append (new old : List Store) (serial : Nat) :
    told (new ++ old) serial = told old serial ++ told new serial := by
  simp [told]

theorem Store.told_of_own {new : List Store} {serial : Nat} (h : ∀ r ∈ new, r.serial = serial) :
    told new serial = new.reverse := by
  rw [told, List.filter_eq_self.mpr (by simpa using h)]

theorem Store.told_of_others {new : List Store} {serial : Nat} (h : ∀ r ∈ new, r.serial ≠ serial) :
    told new serial = [] := by
  rw [told, List.filter_eq_nil_iff.mpr (by simpa using h), List.reverse_nil]

theorem Frame.replay_append (slots : Array Value) (first last : List Store) :
    replay slots (first ++ last) = replay (replay slots first) last :=
  List.foldl_append

/-- The locals of an observed frame are those of the same frame earlier, after the stores recorded of
it since then. -/
structure Scene.Tracks (s t : Scene) : Prop where
  serial : t.frame.serial = s.frame.serial
  observed : t.frame.observed = s.frame.observed
  stores : ∃ new, t.world.stores = new ++ s.world.stores ∧ (s.frame.observed = true →
    t.frame.slots = Frame.replay s.frame.slots (Store.told new s.frame.serial))

namespace Scene.Tracks

variable {s t u : Scene}

theorem refl (s : Scene) : s.Tracks s := ⟨rfl, rfl, [], rfl, fun _ => rfl⟩

theorem trans (hst : s.Tracks t) (htu : t.Tracks u) : s.Tracks u := by
  obtain ⟨hserial, hobserved, new, hstores, hslots⟩ := hst
  obtain ⟨hserial', hobserved', new', hstores', hslots'⟩ := htu
  refine ⟨hserial'.trans hserial, hobserved'.trans hobserved, new' ++ new, ?_, fun hs => ?_⟩
  · rw [hstores', hstores, List.append_assoc]
  · rw [hslots' (hobserved.trans hs), hslots hs, hserial, Store.told_append, Frame.replay_append]

theorem received (h : s.Tracks t) (v : Value) : s.Tracks ⟨t.frame.received v, t.world⟩ := by
  unfold Frame.received
  split
  · exact ⟨h.serial, h.observed, h.stores⟩
  · exact h

/-- From a frame without records on, all that is recorded of the frame counts. -/
theorem slots_eq (h : s.Tracks t) (hnone : s.world.reported s.frame.serial = []) :
    s.world.stores <:+ t.world.stores ∧ (s.frame.observed = true →
      t.frame.slots = Frame.replay s.frame.slots (t.world.reported t.frame.serial)) := by
  obtain ⟨hserial, -, new, hstores, hslots⟩ := h
  refine ⟨⟨new, hstores.symm⟩, fun hs => ?_⟩
  rw [World.reported] at hnone ⊢
  rw [hslots hs, hserial, hstores, Store.told_append, hnone, List.nil_append]

end Scene.Tracks

/-! ### Instructions -/

/-- An instruction at work stores into its own frame only, and records what it stores if the frame is
observed, and nothing otherwise. -/
structure Scene.Storing (s t : Scene) : Prop where
  serial : t.frame.serial = s.frame.serial
  observed : t.frame.observed = s.frame.observed
  calls : t.world.calls = s.world.calls
  stores : ∃ new, t.world.stores = new ++ s.world.stores ∧
    (∀ r ∈ new, r.serial = s.frame.serial) ∧
    (s.frame.observed = true → t.frame.slots = Frame.replay s.frame.slots new.reverse) ∧
    (s.frame.observed = false → new = [])

theorem Scene.serial_of_mem_records {depth index : Nat} {v : Value} {s : Scene} {r : Store}
    (hr : r ∈ s.records depth index v) : r.serial = s.frame.serial := by
  unfold records at hr
  split at hr
  · rw [List.mem_singleton.mp hr]
  · cases hr

namespace Scene.Storing

variable {s t : Scene}

theorem refl (s : Scene) : s.Storing s :=
  ⟨rfl, rfl, rfl, [], rfl, nofun, fun _ => rfl, fun _ => rfl⟩

theorem store (h : s.Storing t) (depth index : Nat) (v : Value) :
    s.Storing (Scene.store depth index v t).2 := by
  rw [Scene.store_eq]
  split
  · exact h
  · obtain ⟨hserial, hobserved, hcalls, new, hstores, hown, hslots, hnone⟩ := h
    refine ⟨hserial, hobserved, hcalls, t.records depth index v ++ new, ?_, ?_, fun hs => ?_,
      fun hs => ?_⟩
    · rw [List.append_assoc, hstores]
    · intro r hr
      rcases List.mem_append.mp hr with hr | hr
      · exact (Scene.serial_of_mem_records hr).trans hserial
      · exact hown r hr
    · rw [Scene.records, if_pos (hobserved.trans hs), List.reverse_append, Frame.replay_append,
        ← hslots hs]
      exact (Store.applied_eq _ ⟨_, _, index, v, _, _⟩).symm
    · rw [Scene.records, hobserved, hs, hnone hs]
      rfl

theorem tracks (h : s.Storing t) : s.Tracks t := by
  obtain ⟨hserial, hobserved, -, new, hstores, hown, hslots, -⟩ := h
  refine ⟨hserial, hobserved, new, hstores, fun hs => ?_⟩
  rw [Store.told_of_own hown, hslots hs]

theorem tracks_other (h : s.Storing t) {g : Frame} (hg : g.serial ≠ s.frame.serial) :
    Scene.Tracks ⟨g, s.world⟩ ⟨g, t.world⟩ := by
  obtain ⟨-, -, -, new, hstores, hown, -⟩ := h
  have hothers : ∀ r ∈ new, r.serial ≠ g.serial := fun r hr heq => hg (heq.symm.trans (hown r hr))
  refine ⟨rfl, rfl, new, hstores, fun _ => ?_⟩
  rw [Store.told_of_others hothers]
  rfl

end Scene.Storing

theorem Environment.execute_storing (env : Environment) (depth : Nat) (i : Instruction)
    (s : Scene) : s.Storing (env.execute depth i s).2 := by
  have hkept : Exec.Kept depth s.Storing :=
    { stack := fun _ ht => ⟨ht.serial, ht.observed, ht.calls, ht.stores⟩
      area := fun _ ht => ⟨ht.serial, ht.observed, ht.calls, ht.stores⟩
      heap := fun _ _ ht => ⟨ht.serial, ht.observed, ht.calls, ht.stores⟩
      intern := fun content ht => by
        obtain ⟨serial, -, hsame | hnew⟩ := Scene.onWorld_intern content _
        · rwa [hsame]
        · rw [hnew]
          exact ⟨ht.serial, ht.observed, ht.calls, ht.stores⟩
      store := fun index v ht => ht.store depth index v }
  exact hkept.execute env i (.refl s)

/-! #### Store instructions -/

def Opcode.stores : Opcode → Bool
  | .store _ | .storeTo .. | .iinc => true
  | _ => false

/-- What a store comes to: a failure that leaves the locals and the world alone, or a value in a
slot, with one record that says so if the frame is observed. -/
inductive Scene.StoreOutcome (depth index : Nat) (s : Scene) : Except Fault Step × Scene → Prop where
  | failed {f : Fault} {t : Scene} (hworld : t.world = s.world)
    (hslots : t.frame.slots = s.frame.slots) : StoreOutcome depth index s (.error f, t)
  | stored {v : Value} {r : Store} {t : Scene}
    (hrecord : r = ⟨s.frame.serial, s.frame.label, index, v, t.frame.stackDepth, depth⟩)
    (hvalue : v ≠ .none) (hroom : index + v.width ≤ s.frame.slots.size)
    (hworld : t.world =
      { s.world with stores := (if s.frame.observed then [r] else []) ++ s.world.stores })
    (hslots : t.frame.slots = Store.applied s.frame.slots r) :
    StoreOutcome depth index s (.ok .next, t)

namespace Exec

theorem storeOutcome_of_frame (depth index : Nat) {m : Effect Frame Value}
    (hm : ∀ f, ∃ values, (m f).2 = { f with stack := values }) {g : Value → Value}
    (hg : ∀ f v, (m f).1 = .ok v → g v ≠ .none) (s : Scene) :
    s.StoreOutcome depth index
      ((onFrame m >>= fun v => Scene.store depth index (g v) >>= fun _ => pure .next) s) := by
  obtain ⟨values, hstack⟩ := hm s.frame
  have hvalue := hg s.frame
  rw [Effect.bind_apply, onFrame, Effect.zoom]
  rcases hframe : m s.frame with ⟨f | v, frame⟩
  · rw [hframe] at hstack
    obtain rfl : frame = { s.frame with stack := values } := hstack
    exact .failed rfl rfl
  · rw [hframe] at hstack hvalue
    obtain rfl : frame = { s.frame with stack := values } := hstack
    dsimp only
    rw [Effect.bind_apply, Scene.store_eq]
    by_cases hfull : s.frame.slots.size < index + (g v).width
    · rw [if_pos hfull]
      exact .failed rfl rfl
    · rw [if_neg hfull]
      exact .stored rfl (hvalue v rfl) (Nat.le_of_not_lt hfull) rfl
        (Store.applied_eq _ ⟨_, _, index, g v, _, _⟩).symm

theorem storeOutcome_storeLocal (depth : Nat) (kind : Kind) (index : UInt16) (s : Scene) :
    s.StoreOutcome depth index.toNat (storeLocal depth kind index s) := by
  refine storeOutcome_of_frame depth index.toNat (g := id) (fun f => ?_) (fun f v hv => ?_) s
  all_goals obtain ⟨cls, method, code, resumePc, slots, _ | ⟨u, rest⟩, serial, observed⟩ := f
  · exact ⟨[], rfl⟩
  · exact ⟨rest, rfl⟩
  · cases hv
  · -- A value of a kind is there.
    obtain ⟨rfl, hkind⟩ := Value.expect_eq_ok hv
    rintro rfl
    cases hkind

theorem storeOutcome_increment (depth : Nat) (index : UInt16) (amount : Int32) (s : Scene) :
    s.StoreOutcome depth index.toNat (increment depth index amount s) := by
  refine storeOutcome_of_frame depth index.toNat (g := fun v => .int (v.toInt32 + amount))
    (fun f => ⟨f.stack, ?_⟩) (fun _ _ _ => nofun) s
  rw [Frame.getLocalKind, Effect.bind_apply]
  rcases hlocal : Frame.getLocal index.toNat f with ⟨e | v, g⟩
  all_goals
    have hsame : (Frame.getLocal index.toNat f).2 = f := by
      unfold Frame.getLocal
      split
      · rfl
      · split <;> rfl
    rw [hlocal] at hsame
    exact hsame

end Exec

theorem Environment.execute_store (env : Environment) (depth : Nat) {i : Instruction}
    (hi : i.opcode.stores = true) (s : Scene) :
    s.StoreOutcome depth i.index.toNat (env.execute depth i s) := by
  rw [Environment.execute]
  cases hop : i.opcode with
  | store kind => exact Exec.storeOutcome_storeLocal depth kind i.index s
  | storeTo kind slot => exact Exec.storeOutcome_storeLocal depth kind i.index s
  | iinc => exact Exec.storeOutcome_increment depth i.index i.value s
  | _ =>
    rw [hop] at hi
    cases hi

/-! ### Natives -/

/-- Between two worlds, stores were recorded of frames made in between only. -/
structure World.Records (w w' : World) : Prop where
  calls : w.calls ≤ w'.calls
  stores : ∃ new, w'.stores = new ++ w.stores ∧
    ∀ r ∈ new, w.calls ≤ r.serial ∧ r.serial < w'.calls

/-- The registered natives may make frames of their own, and have stores recorded of no others. -/
def Environment.NativesRecord (env : Environment) : Prop :=
  ∀ r run, env.natives.find? r = some run → ∀ site arguments w,
    World.Records w (run site arguments w).2

theorem World.Records.of_eq {w w' : World} (hcalls : w'.calls = w.calls)
    (hstores : w'.stores = w.stores) : w.Records w' :=
  ⟨Nat.le_of_eq hcalls.symm, [], hstores, nofun⟩

theorem World.Records.tracks {w w' : World} (h : w.Records w') {g : Frame}
    (hg : g.serial < w.calls) : Scene.Tracks ⟨g, w⟩ ⟨g, w'⟩ := by
  obtain ⟨-, new, hstores, hnew⟩ := h
  have hothers : ∀ r ∈ new, r.serial ≠ g.serial := fun r hr heq => by
    have hle := (hnew r hr).1
    omega
  refine ⟨rfl, rfl, new, hstores, fun _ => ?_⟩
  rw [Store.told_of_others hothers]
  rfl

theorem Environment.nativesRecord_standard {env : Environment} (h : env.natives = .standard) :
    env.NativesRecord := by
  intro r run hrun site arguments w
  rw [h] at hrun
  have hdetached : World.Detached fun w' => w'.calls = w.calls ∧ w'.stores = w.stores :=
    ⟨fun _ hw => hw, fun _ _ hw => hw⟩
  obtain ⟨⟨hcalls, hstores⟩, -⟩ := hdetached.standard hrun site arguments w ⟨rfl, rfl⟩
  exact .of_eq hcalls hstores

/-! ### Numbers of frames -/

/-- Only stores of frames that have been made are recorded. -/
def World.Numbered (w : World) : Prop := ∀ r ∈ w.stores, r.serial < w.calls

theorem World.Records.numbered {w w' : World} (h : w.Records w') (hw : w.Numbered) :
    w'.Numbered := by
  obtain ⟨hcalls, new, hstores, hnew⟩ := h
  intro r hr
  rw [hstores, List.mem_append] at hr
  rcases hr with hr | hr
  · exact (hnew r hr).2
  · exact Nat.lt_of_lt_of_le (hw r hr) hcalls

namespace Thread

/-- The frames have been made one after the other, each above an earlier one. -/
structure Numbered (t : Thread) : Prop where
  frames : (t.world.calls :: t.frames.map Frame.serial).Pairwise (· > ·)
  world : t.world.Numbered

namespace Numbered

variable {t u : Thread} {f : Frame} {below : List Frame} {w : World}

theorem lt (ht : t.Numbered) {f : Frame} (hf : f ∈ t.frames) : f.serial < t.world.calls :=
  (List.pairwise_cons.mp ht.frames).1 _ (List.mem_map_of_mem hf)

theorem ne (ht : Numbered ⟨f :: below, w⟩) {g : Frame} (hg : g ∈ below) : g.serial ≠ f.serial := by
  have hbelow := (List.pairwise_cons.mp (List.pairwise_cons.mp ht.frames).2).1
  exact Nat.ne_of_lt (hbelow _ (List.mem_map_of_mem hg))

theorem sublist (ht : t.Numbered) {frames : List Frame}
    (h : (frames.map Frame.serial).Sublist (t.frames.map Frame.serial)) :
    Numbered ⟨frames, t.world⟩ :=
  ⟨ht.frames.sublist (h.cons_cons _), ht.world⟩

theorem records (ht : t.Numbered) (h : t.world.Records w) : Numbered { t with world := w } := by
  obtain ⟨hlt, hserials⟩ := List.pairwise_cons.mp ht.frames
  refine ⟨List.pairwise_cons.mpr ⟨fun n hn => ?_, hserials⟩, h.numbered ht.world⟩
  exact Nat.lt_of_lt_of_le (hlt n hn) h.calls

theorem storing (ht : Numbered ⟨f :: below, w⟩) {s : Scene} (h : Scene.Storing ⟨f, w⟩ s) :
    Numbered ⟨s.frame :: below, s.world⟩ := by
  obtain ⟨hserial, -, hcalls, new, hstores, hown, -⟩ := h
  refine ⟨?_, fun r hr => ?_⟩
  · simp only [List.map_cons]
    rw [hserial, hcalls]
    exact ht.frames
  · rw [hstores, List.mem_append] at hr
    rw [hcalls]
    rcases hr with hr | hr
    · rw [hown r hr]
      exact ht.lt (List.mem_cons_self ..)
    · exact ht.world r hr

theorem enter (ht : t.Numbered) (hf : f.serial = t.world.calls) :
    Numbered ⟨f :: t.frames, { t.world with calls := t.world.calls + 1 }⟩ := by
  refine ⟨?_, fun r hr => Nat.lt_succ_of_lt (ht.world r hr)⟩
  rw [List.map_cons, hf]
  refine List.pairwise_cons.mpr ⟨?_, ht.frames⟩
  rw [List.forall_mem_cons]
  refine ⟨Nat.lt_succ_self _, fun n hn => Nat.lt_succ_of_lt ?_⟩
  exact (List.pairwise_cons.mp ht.frames).1 n hn

end Numbered

/-! ### Steps -/

theorem serial_received (f : Frame) (v : Value) : (f.received v).serial = f.serial := by
  unfold Frame.received
  split <;> rfl

/-- Each frame has been there before. -/
def Traces (t u : Thread) : Prop :=
  ∀ g ∈ u.frames, ∃ f ∈ t.frames, Scene.Tracks ⟨f, t.world⟩ ⟨g, u.world⟩

theorem Traces.trans {t u v : Thread} (htu : t.Traces u) (huv : u.Traces v) : t.Traces v := by
  intro h hh
  obtain ⟨g, hg, hgh⟩ := huv h hh
  obtain ⟨f, hf, hfg⟩ := htu g hg
  exact ⟨f, hf, hfg.trans hgh⟩

theorem Traces.records {t : Thread} {w : World} (ht : t.Numbered) (h : t.world.Records w) :
    t.Traces { t with world := w } :=
  fun g hg => ⟨g, hg, h.tracks (ht.lt hg)⟩

def Move.old (below : List Frame) : Move → Thread
  | .enter _ f w => ⟨f :: below, w⟩
  | m => m.thread below

/-- A frame that has just been made, and was given the observer if there is one. -/
structure New (env : Environment) (f : Frame) (w : World) : Prop where
  made : ∃ cls method receiver parameters arguments,
    Frame.make cls method receiver parameters arguments f.serial env.observed = .ok f
  unrecorded : w.reported f.serial = []

theorem New.observed {env : Environment} {f : Frame} {w : World} (h : New env f w) :
    f.observed = env.observed := by
  obtain ⟨cls, method, receiver, parameters, arguments, hmake⟩ := h.made
  obtain ⟨code, slots, -, -, -, -, hf⟩ := Frame.make_eq_ok hmake
  rw [hf]

section

variable {env : Environment} {t u : Thread} {f g : Frame} {below : List Frame} {w : World}

theorem new_of_make {cls : Class} {method : Method} {receiver : Option Value}
    {parameters : List FieldType} {arguments : List Value} (hw : w.Numbered)
    (h : Frame.make cls method receiver parameters arguments w.calls env.observed = .ok f) :
    f.serial = w.calls ∧ New env f { w with calls := w.calls + 1 } := by
  have hserial : f.serial = w.calls := by
    obtain ⟨code, slots, -, -, -, -, rfl⟩ := Frame.make_eq_ok h
    rfl
  refine ⟨hserial, ⟨cls, method, receiver, parameters, arguments, hserial ▸ h⟩, ?_⟩
  exact Store.told_of_others fun r hr heq => absurd (hw r hr) (by omega)

theorem Numbered.top (ht : Numbered ⟨f :: below, w⟩) (hserial : g.serial = f.serial) :
    Numbered ⟨g :: below, w⟩ := by
  refine ⟨?_, ht.world⟩
  rw [List.map_cons, hserial]
  exact ht.frames

theorem Numbered.pop (ht : Numbered ⟨f :: below, w⟩) : Numbered ⟨below, w⟩ :=
  ht.sublist (List.sublist_cons_self _ _)

theorem Traces.refl (t : Thread) : t.Traces t := fun g hg => ⟨g, hg, .refl _⟩

theorem Traces.cons {w' : World} (hf : Scene.Tracks ⟨f, w⟩ ⟨g, w'⟩)
    (hbelow : ∀ h ∈ below, Scene.Tracks ⟨h, w⟩ ⟨h, w'⟩) :
    Traces ⟨f :: below, w⟩ ⟨g :: below, w'⟩ := by
  intro h hh
  rcases List.mem_cons.mp hh with rfl | hh
  · exact ⟨f, List.mem_cons_self .., hf⟩
  · exact ⟨h, List.mem_cons_of_mem _ hh, hbelow h hh⟩

/-- What a move does to the frames of a thread: those that were there go on, and one may be new. -/
structure Move.Continues (env : Environment) (t : Thread) (below : List Frame) (m : Move) : Prop where
  numbered : (m.thread below).Numbered
  traces : t.Traces (m.old below)
  new : ∀ callee f w, m = .enter callee f w → New env callee w

variable (hn : env.NativesRecord)

include hn

theorem follows_continues {i : Instruction} {step : Step} {m : Move}
    (ht : Numbered ⟨f :: below, w⟩) (hstep : step.Sound env fun _ => True)
    (h : Follows env i f below w step m) : m.Continues env ⟨f :: below, w⟩ below := by
  have hwaiting : ∀ retry, Numbered ⟨waiting f i retry :: below, w⟩ := fun retry => ht.top rfl
  -- What a native has recorded is not about the frames of the thread.
  have hnative : ∀ {invocation : Invocation} {run method? site arguments r w'},
      invocation.Sound env (fun _ => True) → invocation.callee = .native run method? →
      run site arguments w = (r, w') → w.Records w' := by
    intro invocation run method? site arguments r w' hsound hcallee hrun
    obtain ⟨ref, href⟩ := hsound.known run method? hcallee
    have hrecords := hn ref run href site arguments w
    rwa [hrun] at hrecords
  have htracks : ∀ {w'}, w.Records w' → ∀ g ∈ f :: below, Scene.Tracks ⟨g, w⟩ ⟨g, w'⟩ :=
    fun hrecords g hg => hrecords.tracks (ht.lt hg)
  cases h with
  | next | jump | badJump => exact ⟨ht, .refl _, nofun⟩
  | ret =>
    exact ⟨ht.pop, fun g hg => ⟨g, List.mem_cons_of_mem _ hg, .refl _⟩, nofun⟩
  | @native invocation retry run method? value w' hcallee hrun =>
    have hrecords := hnative hstep hcallee hrun
    obtain ⟨hf, hbelow⟩ := List.forall_mem_cons.mp (htracks hrecords)
    refine ⟨((hwaiting retry).records hrecords).top (serial_received _ value), ?_, nofun⟩
    have hcurrent : Scene.Tracks ⟨f, w⟩ ⟨waiting f i retry, w'⟩ := ⟨hf.serial, hf.observed, hf.stores⟩
    exact .cons (hcurrent.received value) hbelow
  | @badNative invocation retry run method? fault w' hcallee hrun =>
    have hrecords := hnative hstep hcallee hrun
    obtain ⟨hf, hbelow⟩ := List.forall_mem_cons.mp (htracks hrecords)
    exact ⟨(hwaiting retry).records hrecords, .cons ⟨hf.serial, hf.observed, hf.stores⟩ hbelow, nofun⟩
  | @call invocation retry cls method callee hcallee hroom hmake =>
    have hrecords : w.Records { w with calls := w.calls + 1 } := ⟨Nat.le_succ _, [], rfl, nofun⟩
    obtain ⟨hf, hbelow⟩ := List.forall_mem_cons.mp (htracks hrecords)
    obtain ⟨hserial, hnew⟩ := new_of_make ht.world hmake
    refine ⟨(hwaiting retry).enter hserial, .cons ⟨hf.serial, hf.observed, hf.stores⟩ hbelow, ?_⟩
    intro _ _ _ hm
    cases hm
    exact hnew
  | @badCall invocation retry cls method fault hcallee hpush =>
    exact ⟨hwaiting retry, .cons ⟨rfl, rfl, [], rfl, fun _ => rfl⟩ fun g _ => .refl _, nofun⟩

theorem takes_continues {pc : Nat} {m : Move} (ht : Numbered ⟨f :: below, w⟩)
    (h : Takes env f below w pc m) : m.Continues env ⟨f :: below, w⟩ below := by
  have hscene : ∀ i, Scene.Storing ⟨f, w⟩ (env.execute (below.length + 1) i ⟨f, w⟩).2 :=
    fun i => env.execute_storing _ i _
  have htraces : ∀ {s : Scene}, Scene.Storing ⟨f, w⟩ s →
      Traces ⟨f :: below, w⟩ ⟨s.frame :: below, s.world⟩ :=
    fun hs => .cons hs.tracks fun g hg => hs.tracks_other (ht.ne hg)
  cases h with
  | offEnd hpc => exact ⟨ht.pop, fun g hg => ⟨g, List.mem_cons_of_mem _ hg, .refl _⟩, nofun⟩
  | unknown hpc hat => exact ⟨ht, .refl _, nofun⟩
  | @fails byte i fault s hpc hat hexec =>
    have hs := hscene i
    rw [hexec] at hs
    exact ⟨ht.storing hs, htraces hs, nofun⟩
  | @follows byte i outcome s m hpc hat hexec hfollows =>
    have hs := hscene i
    rw [hexec] at hs
    obtain ⟨hnumbered, hrest, hnew⟩ :=
      follows_continues hn (ht.storing hs) (Environment.execute_sound hexec) hfollows
    exact ⟨hnumbered, (htraces hs).trans hrest, hnew⟩

theorem step_numbered (ht : t.Numbered) (base pc : Nat) :
    (step env base t pc).thread.Numbered := by
  obtain ⟨_ | ⟨f, below⟩, w⟩ := t
  · exact ht
  · obtain ⟨m, htakes, hstep⟩ := exists_takes env f below w pc
    rw [hstep]
    have hmove := takes_continues hn ht htakes
    refine Move.progress_thread base hmove.numbered (fun t n ht => ?_) fun _ _ _ _ _ ht => ?_
    · exact ht.sublist ((List.drop_sublist n t.frames).map _)
    · exact ht.top (serial_received _ _)

/-- Every frame that is there after a step was there before or has been made by the step. -/
theorem step_traces {base pc pc' : Nat} (ht : t.Numbered)
    (h : step env base t pc = .running u pc') :
    t.Traces u ∨ ∃ callee f below w, u = ⟨callee :: f :: below, w⟩ ∧ pc' = 0 ∧ New env callee w ∧
      t.Traces ⟨f :: below, w⟩ := by
  obtain ⟨_ | ⟨f, below⟩, w⟩ := t
  · cases h
  · obtain ⟨m, htakes, hstep⟩ := exists_takes env f below w pc
    rw [hstep] at h
    obtain ⟨-, htraces, hnew⟩ := takes_continues hn ht htakes
    have hold : m.old below = m.thread below → Traces ⟨f :: below, w⟩ u := by
      intro heq
      rw [heq] at htraces
      have hkept := Move.progress_thread (P := Traces ⟨f :: below, w⟩) base htraces
        (fun t n ht g hg => ht g (List.mem_of_mem_drop hg)) fun value caller rest w' _ ht => ?_
      · rwa [h] at hkept
      · intro g hg
        rcases List.mem_cons.mp hg with rfl | hg
        · obtain ⟨f', hf', htracks⟩ := ht caller (List.mem_cons_self ..)
          exact ⟨f', hf', htracks.received value⟩
        · exact ht g (List.mem_cons_of_mem _ hg)
    cases m with
    | enter callee f' w' =>
      cases h
      exact .inr ⟨callee, f', below, w', rfl, rfl, hnew callee f' w' rfl, htraces⟩
    | stay f' pc' w' => exact .inl (hold rfl)
    | leave value w' => exact .inl (hold rfl)
    | abort f' fault w' => cases h

/-! ### Runs -/

omit hn in
theorem new_of_push {cls : Class} {method : Method} {i : Invocation} (ht : t.Numbered)
    (h : t.push env cls method i = .ok u) :
    u.Numbered ∧ ∃ f w, u = ⟨f :: t.frames, w⟩ ∧ New env f w ∧ t.Traces ⟨t.frames, w⟩ := by
  obtain ⟨-, f, hmake, rfl⟩ := push_eq_ok_iff.mp h
  obtain ⟨hserial, hnew⟩ := new_of_make ht.world hmake
  have hrecords : t.world.Records { t.world with calls := t.world.calls + 1 } :=
    ⟨Nat.le_succ _, [], rfl, nofun⟩
  exact ⟨ht.enter hserial, f, _, rfl, hnew, .records ht hrecords⟩

theorem numbered_runInvariant : RunInvariant env Numbered (Invocation.Known env) where
  load name ht := ht.records (.of_eq rfl rfl)
  claim c ht := ht.records (.of_eq rfl rfl)
  initializer h := (Exec.sound_claimFrom (G := fun _ => True) (Except.ok.inj h)).known
  native {t i run method?} ht hi hcallee := by
    obtain ⟨ref, href⟩ := hi run method? hcallee
    have hrecords := hn ref run href t.callSite i.nativeArguments t.world
    unfold callNative
    split <;> rename_i hrun <;> rw [hrun] at hrecords <;> exact ht.records hrecords
  push ht _ h := (new_of_push ht h).1
  step base pc ht := step_numbered hn ht base pc

/-- A frame of a loop in the world in which it has just been made. -/
def Created (env : Environment) (i : Invocation) (t : Thread) (f : Frame) (w : World) : Prop :=
  New env f w ∧ ∃ below, LoopState env i t ⟨f :: below, w⟩ 0

/-- The frames of a loop are those of the thread on which the call was made and those made by the
loop, and for all of them every store has been recorded. -/
theorem LoopState.tracks {i : Invocation} {pc : Nat} (ht : t.Numbered) (hi : i.Known env)
    (h : LoopState env i t u pc) :
    ∀ g ∈ u.frames, (∃ f ∈ t.frames, Scene.Tracks ⟨f, t.world⟩ ⟨g, u.world⟩) ∨
      ∃ f w, Created env i t f w ∧ Scene.Tracks ⟨f, w⟩ ⟨g, u.world⟩ := by
  induction h with
  | @start cls method u hcallee hpush =>
    obtain ⟨-, f, w, rfl, hnew, htraces⟩ := new_of_push ht hpush
    intro g hg
    rcases List.mem_cons.mp hg with rfl | hg
    · exact .inr ⟨g, w, ⟨hnew, t.frames, .start hcallee hpush⟩, .refl _⟩
    · exact .inl (htraces g hg)
  | @step u v pc pc' h hstep ih =>
    have hu : u.Numbered := (numbered_runInvariant hn).loopState ht hi h
    have hold : ∀ {w : World} {frames : List Frame}, u.Traces ⟨frames, w⟩ → ∀ g ∈ frames,
        (∃ f ∈ t.frames, Scene.Tracks ⟨f, t.world⟩ ⟨g, w⟩) ∨
          ∃ f w', Created env i t f w' ∧ Scene.Tracks ⟨f, w'⟩ ⟨g, w⟩ := by
      intro w frames htraces g hg
      obtain ⟨g', hg', htracks⟩ := htraces g hg
      rcases ih g' hg' with ⟨f, hf, hbefore⟩ | ⟨f, w', hcreated, hbefore⟩
      · exact .inl ⟨f, hf, hbefore.trans htracks⟩
      · exact .inr ⟨f, w', hcreated, hbefore.trans htracks⟩
    rcases step_traces hn hu hstep with htraces | ⟨callee, f, below, w, rfl, rfl, hnew, htraces⟩
    · exact hold htraces
    · intro g hg
      rcases List.mem_cons.mp hg with rfl | hg
      · exact .inr ⟨g, w, ⟨hnew, f :: below, h.step hstep⟩, .refl _⟩
      · exact hold htraces g hg

end

end Thread

/-! ### Runs one after the other -/

theorem Thread.Numbered.idle {w : World} (hw : w.Numbered) : Numbered ⟨[], w⟩ :=
  ⟨List.pairwise_singleton _ _, hw⟩

theorem World.Reached.numbered {env : Environment} (hn : env.NativesRecord) {A : Value → Prop}
    {w : World} (h : Reached env A w) : w.Numbered := by
  induction h with
  | empty => exact nofun
  | @prepared w w' r arguments result h hargs ih =>
    rcases Runtime.entryArguments_outcome hargs with ⟨rfl, -⟩ | ⟨strings, u, hall, -, rfl⟩
    · exact ih
    · obtain ⟨table, made, hframe⟩ := World.internAll_frame arguments w
      rw [hall] at hframe
      subst hframe
      exact ih
  | ran h _ hrun ih =>
    have hinvariant := Thread.numbered_runInvariant hn
    exact (hinvariant.run (fun _ _ => Invariant.entryCall_known) (.idle ih) hrun).world

/-- Let the registered natives record nothing about frames that they did not make. Then at every
point of every run, after whatever has been run before, each frame has been given the observer if
there is one, and then its locals are those that it was made with, with the stores recorded of it
since then replayed in order; none had been recorded of it when it was made, and no other frame has
its number. While an instruction is at work on an observed frame, too, it changes no locals but by
stores that it records. An instruction that stores and fails changes neither a slot nor the record;
when it succeeds, it adds the record of the one value that it stored, and of its slot, if there is
an observer, and no record otherwise. -/
theorem locals_replayed {env : Environment} (hn : env.NativesRecord) :
    (∀ w r arguments i t u pc, World.Reached env (fun _ => True) w →
      Thread.RunCall env r arguments ⟨[], w⟩ i t → Thread.LoopState env i t u pc →
        (u.frames.map Frame.serial).Nodup ∧
        ∀ f ∈ u.frames, f.observed = env.observed ∧
          ∃ f₀ w₀, Thread.Created env i t f₀ w₀ ∧ f₀.serial = f.serial ∧
            w₀.reported f.serial = [] ∧ w₀.stores <:+ u.world.stores ∧
            (env.observed = true →
              f.slots = Frame.replay f₀.slots (u.world.reported f.serial))) ∧
    (∀ depth i (s : Scene), s.Storing (env.execute depth i s).2) ∧
    ∀ depth (i : Instruction) (s : Scene), i.opcode.stores = true →
      s.StoreOutcome depth i.index.toNat (env.execute depth i s) := by
  refine ⟨?_, fun depth i s => env.execute_storing depth i s,
    fun depth i s hi => env.execute_store depth hi s⟩
  intro w r arguments i t u pc hw hcall hloop
  have hinvariant := Thread.numbered_runInvariant hn
  obtain ⟨ht, hi⟩ :=
    hinvariant.runCall (fun _ _ => Invariant.entryCall_known) (.idle (hw.numbered hn)) hcall
  have hu : u.Numbered := hinvariant.loopState ht hi hloop
  refine ⟨?_, fun f hf => ?_⟩
  · exact (List.pairwise_cons.mp hu.frames).2.imp Nat.ne_of_gt
  · rcases hloop.tracks hn ht hi f hf with ⟨g, hg, -⟩ | ⟨f₀, w₀, hcreated, htracks⟩
    · -- The run began without frames.
      rw [hcall.frames] at hg
      cases hg
    · obtain ⟨hsuffix, hslots⟩ := htracks.slots_eq hcreated.1.unrecorded
      have hserial : f.serial = f₀.serial := htracks.serial
      have hobserved := hcreated.1.observed
      refine ⟨htracks.observed.trans hobserved, f₀, w₀, hcreated, hserial.symm,
        hserial ▸ hcreated.1.unrecorded, hsuffix, fun henv => ?_⟩
      exact hslots (hobserved.trans henv)

-- A first run fails in the initialiser of its class, three calls deep.
theorem sample_reached :
    World.Reached Thread.sampleEnvironment (fun _ => True)
      { Thread.sampleWorld with calls := 3 } := by
  have hworld : (Thread.run Thread.sampleEnvironment 9 ⟨"A", "f", "()V"⟩ [] ⟨[], .empty⟩).map
      (fun p => p.2.world) = some { Thread.sampleWorld with calls := 3 } := by
    cbv
  obtain ⟨⟨result, u⟩, hrun, hworld⟩ := Option.map_eq_some_iff.mp hworld
  exact hworld ▸ .ran .empty (fun _ _ => trivial) hrun

-- In a second run `g` waits for `h`, which has stored a 5.
theorem sample_stores :
    ∃ i t u, Thread.RunCall Thread.sampleEnvironment ⟨"A", "g", "()I"⟩ []
        ⟨[], { Thread.sampleWorld with calls := 3 }⟩ i t ∧
      Thread.LoopState Thread.sampleEnvironment i t u 2 ∧
      ∃ h g, u.frames = [h, g] ∧ h.slots = #[.int 5] :=
  ⟨_, _, _, @Thread.RunCall.entry _ _ _ _ _ _ 1 _ _ rfl rfl rfl,
    .step (.step (.step (.start rfl rfl) rfl) rfl) rfl, _, _, rfl, rfl⟩

-- The frame of `g` has no slot for the 5.
theorem sample_no_slot :
    ∃ i s f, Code.at? (.make 1 1 [0x08, 0x3B, 0x1A, 0xAC] [] []) 1 = some i ∧
      i.opcode.stores = true ∧
      Thread.sampleEnvironment.execute 1 i
          ⟨{ Thread.sampleFrame with stack := [.int 5] }, .empty⟩ = (.error f, s) :=
  ⟨_, _, _, rfl, rfl, rfl⟩

theorem locals_replayed_sample :
    Thread.sampleEnvironment.NativesRecord ∧
      (∃ w i t u, World.Reached Thread.sampleEnvironment (fun _ => True) w ∧
        Thread.RunCall Thread.sampleEnvironment ⟨"A", "g", "()I"⟩ [] ⟨[], w⟩ i t ∧
        Thread.LoopState Thread.sampleEnvironment i t u 2 ∧
        ∃ h f₀ w₀, h ∈ u.frames ∧ Thread.Created Thread.sampleEnvironment i t f₀ w₀ ∧
          #[.int 5] = Frame.replay f₀.slots (u.world.reported h.serial)) ∧
      ∃ i s f, i.opcode.stores = true ∧
        Thread.sampleEnvironment.execute 1 i
            ⟨{ Thread.sampleFrame with stack := [.int 5] }, .empty⟩ = (.error f, s) ∧
          s.world = .empty ∧ s.frame.slots = #[] := by
  have hn : Thread.sampleEnvironment.NativesRecord := Environment.nativesRecord_standard rfl
  obtain ⟨hruns, -, hstores⟩ := locals_replayed hn
  refine ⟨hn, ?_, ?_⟩
  · obtain ⟨i, t, u, hcall, hloop, h, g, hframes, hslots⟩ := sample_stores
    have hh : h ∈ u.frames := by simp [hframes]
    obtain ⟨-, hlocals⟩ := hruns _ _ _ i t u 2 sample_reached hcall hloop
    obtain ⟨-, f₀, w₀, hcreated, -, -, -, hreplay⟩ := hlocals h hh
    exact ⟨_, i, t, u, sample_reached, hcall, hloop, h, f₀, w₀, hh, hcreated,
      hslots ▸ hreplay rfl⟩
  · obtain ⟨i, s, f, -, hi, hexec⟩ := sample_no_slot
    have houtcome := hstores 1 i ⟨{ Thread.sampleFrame with stack := [.int 5] }, .empty⟩ hi
    rw [hexec] at houtcome
    cases houtcome with
    | failed hworld hslots => exact ⟨i, s, f, hi, hexec, hworld, hslots⟩

end Jvm
