import Mathlib.Data.Nat.Basic
import Mathlib.Order.Basic
import Jvm.Proofs.Machine.Contents
import Jvm.Proofs.Machine.RunInduction

/-!
# What values are around

Values are in the frames of a thread, in the static fields of the loaded classes and in the heap. A
property of values, which may depend on how much has been allocated, is persistent if allocation
keeps it and if it holds of the values that instructions make by themselves. When the initial values
of class files have it and the natives keep it, then whatever values are around during a run have it
as well.
-/

namespace Jvm

open Effect

variable {G : Nat × Nat → Value → Prop}

/-! ### Persistent properties -/

/-- A property of values, given the numbers of instances and arrays, that allocation keeps. It holds
of what instructions make by themselves and of what has been allocated. -/
structure Value.Persistent (G : Nat × Nat → Value → Prop) : Prop where
  mono {n n' : Nat × Nat} (hle : n ≤ n') (v : Value) (h : G n v) : G n' v
  plain (n : Nat × Nat) {v : Value} (h : v.Plain) : G n v
  object {n : Nat × Nat} {k : Nat} (h : k < n.1) : G n (.reference (.object k))
  array {n : Nat × Nat} {k : Nat} (h : k < n.2) : G n (.reference (.array k))

namespace Heap

theorem extent_newInstance (h : Heap) (c : Class) : h.extent ≤ (h.newInstance c).2.extent :=
  ⟨by simp [newInstance, extent], le_rfl⟩

theorem extent_newArray (h : Heap) (component : String) (elements : List Value) :
    h.extent ≤ (h.newArray component elements).2.extent :=
  ⟨le_rfl, by simp [newArray, extent]⟩

end Heap

section

variable (hG : Value.Persistent G)

include hG

theorem Value.Persistent.newInstance (h : Heap) (c : Class) :
    G (h.newInstance c).2.extent (.reference (h.newInstance c).1) :=
  hG.object (by simp [Heap.newInstance, Heap.extent])

theorem Value.Persistent.newArray (h : Heap) (component : String) (elements : List Value) :
    G (h.newArray component elements).2.extent (.reference (h.newArray component elements).1) :=
  hG.array (by simp [Heap.newArray, Heap.extent])

end

section

variable {G G' : Value → Prop} (hsub : ∀ v, G v → G' v)

include hsub

theorem MethodArea.All.mono {a : MethodArea} (h : a.All G) : a.All G' :=
  fun name e he v hv => hsub v (h name e he v hv)

theorem Heap.All.mono {heap : Heap} (h : heap.All G) : heap.All G' where
  fields i hi v hv := hsub v (h.fields i hi v hv)
  elements array harray v hv := hsub v (h.elements array harray v hv)

theorem Frame.All.mono {f : Frame} (h : f.All G) : f.All G' where
  slots v hv := hsub v (h.slots v hv)
  stack v hv := hsub v (h.stack v hv)

theorem Invocation.Sound.mono {env : Environment} {i : Invocation} (h : i.Sound env G) :
    i.Sound env G' :=
  ⟨h.known, fun v hv => hsub v (h.arguments v hv)⟩

end

/-! ### Worlds -/

/-- All values in the static fields and in the heap have the property, and at least `n` instances and
arrays are there. -/
structure World.Holds (G : Nat × Nat → Value → Prop) (n : Nat × Nat) (w : World) : Prop where
  statics : w.area.All (G w.heap.extent)
  heap : w.heap.All (G w.heap.extent)
  grown : n ≤ w.heap.extent

namespace World.Holds

variable {n n' : Nat × Nat} {w : World}

theorem empty (G : Nat × Nat → Value → Prop) : World.empty.Holds G (0, 0) where
  statics := .empty
  heap := ⟨fun i hi => absurd hi (by simp [World.empty, Heap.empty]),
    fun array harray => absurd harray (by simp [World.empty, Heap.empty])⟩
  grown := ⟨Nat.zero_le _, Nat.zero_le _⟩

theorem weaken (h : w.Holds G n') (hle : n ≤ n') : w.Holds G n :=
  ⟨h.statics, h.heap, hle.trans h.grown⟩

theorem renew (h : w.Holds G n) : w.Holds G w.heap.extent := ⟨h.statics, h.heap, le_rfl⟩

theorem withArea (h : w.Holds G n) {b : MethodArea} (hb : b.All (G w.heap.extent)) :
    World.Holds G n { w with area := b } :=
  ⟨hb, h.heap, h.grown⟩

section

variable (hG : Value.Persistent G)

include hG

theorem grow (h : w.Holds G n) {heap : Heap} (hle : w.heap.extent ≤ heap.extent)
    (hheap : heap.All (G heap.extent)) : World.Holds G heap.extent { w with heap } :=
  ⟨h.statics.mono (hG.mono hle), hheap, le_rfl⟩

theorem newInstance (h : w.Holds G n) (c : Class) :
    World.Holds G (w.heap.newInstance c).2.extent
      { w with heap := (w.heap.newInstance c).2 } := by
  have hle := w.heap.extent_newInstance c
  have hold := h.heap.mono (hG.mono hle)
  refine h.grow hG hle ⟨fun i hi => ?_, hold.elements⟩
  rcases Array.mem_push.mp hi with hi | rfl
  · exact hold.fields i hi
  · intro v hv
    obtain ⟨key, -, rfl⟩ := List.mem_map.mp hv
    exact hG.plain _ (Value.plain_zeroOf key.descriptor)

theorem newArray (h : w.Holds G n) (component : String) {elements : List Value}
    (helements : ∀ v ∈ elements, v.Plain) :
    World.Holds G (w.heap.newArray component elements).2.extent
      { w with heap := (w.heap.newArray component elements).2 } := by
  have hle := w.heap.extent_newArray component elements
  have hold := h.heap.mono (hG.mono hle)
  refine h.grow hG hle ⟨hold.fields, fun array harray => ?_⟩
  rcases Array.mem_push.mp harray with harray | rfl
  · exact hold.elements array harray
  · exact fun v hv => hG.plain _ (helements v hv)

theorem setField? (h : w.Holds G n) {r : Reference} {key : MemberRef} {v : Value} {heap : Heap}
    (hv : G w.heap.extent v) (hset : w.heap.setField? r key v = some heap) :
    World.Holds G n { w with heap } := by
  obtain ⟨hheap, hextent⟩ := h.heap.setField? hv hset
  rw [← hextent] at hheap
  exact (h.grow hG (le_of_eq hextent.symm) hheap).weaken (hextent ▸ h.grown)

end

end World.Holds

/-! ### Natives -/

/-- The registered natives keep what holds everywhere, and it holds of what they answer. -/
def Environment.NativesHold (env : Environment) (G : Nat × Nat → Value → Prop) : Prop :=
  ∀ r run, env.natives.find? r = some run → ∀ site arguments w w' result,
    (∀ v ∈ arguments, G w.heap.extent v) → w.Holds G w.heap.extent →
      run site arguments w = (result, w') →
        w'.Holds G w.heap.extent ∧ ∀ v, result = .ok v → G w'.heap.extent v

section

variable (hG : Value.Persistent G)

include hG

/-- From an allocation on, the number of the new instance counts as handed out. -/
theorem World.holds_newInstance_bind {α : Type} {c : Class} {k : Reference → Effect World α}
    (hk : ∀ h : Heap, Keeps (World.Holds G (h.newInstance c).2.extent) (k (h.newInstance c).1))
    (n : Nat × Nat) : Keeps (World.Holds G n) (World.newInstance c >>= k) := by
  intro w hw
  have hkept := (hk w.heap _ (hw.newInstance hG c)).1
  exact ⟨hkept.weaken (hw.grown.trans (w.heap.extent_newInstance c)), fun _ _ => trivial⟩

theorem Native.holds_standardDescriptors (n : Nat × Nat) (c : Class) (fd : Nat)
    (fields : List String) : Keeps (World.Holds G n) (standardDescriptors c fd fields) := by
  induction fields generalizing n fd with
  | nil => exact .pure trivial
  | cons field rest ih =>
    rw [standardDescriptors]
    split
    · refine World.holds_newInstance_bind hG (fun h => ?_) n
      refine (Keeps.update fun w hw => ?_).bind fun _ => Yields.read_bind fun w hw => ?_
      · split
        · rename_i heap hset
          have hfd : G w.heap.extent (.int (Int32.ofNat fd)) := hG.plain _ trivial
          exact hw.setField? hG hfd hset
        · exact hw
      · cases hset : w.area.setStatic c field ("L" ++ fileDescriptorName ++ ";")
            (.reference (h.newInstance c).1) with
        | error f => exact ⟨hw, of_error⟩
        | ok b =>
          have hwithin := hG.mono hw.grown _ (hG.newInstance h c)
          exact ih _ (fd + 1) { w with area := b }
            (hw.withArea (hw.statics.setStatic hwithin hset))
    · exact ih n (fd + 1)

theorem NativeTable.holds_standard {r : MemberRef} {run : Native}
    (hrun : NativeTable.standard.find? r = some run) (site : CallSite) (arguments : List Value)
    (n : Nat × Nat) : Yields (World.Holds G n) (run site arguments) Value.Plain := by
  rcases NativeTable.standard_cases hrun with rfl | rfl | rfl | rfl
  · exact .pure trivial
  · unfold Native.getClass
    split
    · exact .fail _
    · exact .fail _
    · exact .pure trivial
  · unfold Native.hashCode
    split
    · exact .fail _
    · exact .fail _
    · exact .pure trivial
    · exact .pure trivial
  · refine Yields.read_bind fun w hw => ?_
    cases w.area.class? Native.fileDescriptorName with
    | none => exact ⟨hw, of_error⟩
    | some c =>
      have hfields := Native.holds_standardDescriptors hG n c 0 ["in", "out", "err"]
      exact (hfields.bind fun _ => .pure trivial) w hw

theorem Environment.nativesHold_standard {env : Environment} (hn : env.natives = .standard) :
    env.NativesHold G := by
  intro r run hrun site arguments w w' result _ hw heq
  rw [hn] at hrun
  obtain ⟨hkept, hanswer⟩ := NativeTable.holds_standard hG hrun site arguments _ w hw
  rw [heq] at hkept hanswer
  exact ⟨hkept, fun v hv => hG.plain _ (hanswer v hv)⟩

end

/-! ### Environments -/

/-- A persistent property that what comes from the class files and the natives has as well. -/
structure Environment.Upholds (env : Environment) (G : Nat × Nat → Value → Prop) : Prop where
  persistent : Value.Persistent G
  initial (n : Nat × Nat) (file : ClassFile) (slot : Nat) (f : Field) (v : Value)
    (hfile : env.loader.classFile file.name = .ok file)
    (hf : (Class.staticFields file)[slot]? = some f)
    (hv : Class.staticInitial file slot f = .ok v) : G n v
  natives : env.NativesHold G

theorem Environment.Upholds.stable {env : Environment} (hG : env.Upholds G) (n : Nat × Nat) :
    env.Stable (MethodArea.All (G n)) :=
  MethodArea.All.stable (hG.initial n)

/-! ### Instructions -/

structure Scene.Holds (G : Nat × Nat → Value → Prop) (n : Nat × Nat) (s : Scene) : Prop where
  frame : s.frame.All (G s.world.heap.extent)
  world : s.world.Holds G n

theorem Environment.Upholds.execute {env : Environment} (hG : env.Upholds G) {depth : Nat}
    {i : Instruction} {s t : Scene} {n : Nat × Nat} {r : Except Fault Step} (hs : s.Holds G n)
    (h : env.execute depth i s = (r, t)) :
    t.Holds G s.world.heap.extent ∧
      ∀ step, r = .ok step → step.Sound env (G t.world.heap.extent) := by
  have T : Exec.Terms env (fun _ => True) (G s.world.heap.extent) :=
    ⟨⟨fun _ _ => trivial, fun _ _ _ => trivial⟩, fun _ _ _ _ => trivial,
      fun _ hv => hG.persistent.plain _ hv⟩
  obtain ⟨m, hm, heq⟩ := Exec.execute_composed depth T i
  obtain ⟨hkept, hanswer⟩ := hm.yields (hG.stable _) (hG.persistent.plain _ trivial)
    s.world.heap.extent s.frame.code s ⟨hs.frame, hs.world.statics, hs.world.heap, rfl, rfl⟩
  rw [heq, bind_apply] at h
  -- Up to its end an instruction allocates nothing.
  have hholds : (m s).2.Holds G s.world.heap.extent := by
    have hextent := hkept.extent
    refine ⟨?_, ?_, ?_, hextent.ge⟩ <;> rw [hextent]
    · exact hkept.frame
    · exact hkept.statics
    · exact hkept.heap
  rcases hms : m s with ⟨f | step | c, u⟩
  · rw [hms] at h hholds
    cases h
    exact ⟨hholds, of_error⟩
  · rw [hms] at h hholds hanswer hkept
    cases h
    refine ⟨hholds, fun step' hstep => ?_⟩
    cases hstep
    rw [hkept.extent]
    exact hanswer _ rfl
  · -- The new instance is the last one.
    rw [hms] at h hholds hkept
    cases h
    have hle := u.world.heap.extent_newInstance c
    have hnew := hholds.world.newInstance hG.persistent c
    refine ⟨⟨?_, hnew.weaken (hkept.extent ▸ hle)⟩, fun step hstep => ?_⟩
    · have hold := hholds.frame.mono (hG.persistent.mono hle)
      exact hold.pushed (hG.persistent.newInstance u.world.heap c)
    · cases hstep
      trivial

/-! ### Frames of calls -/

theorem Frame.bindArguments_all {G : Value → Prop} {name : String} {i slot : Nat}
    {types : List FieldType} {values : List Value} {slots slots' : Array Value}
    (hslots : ∀ v ∈ slots, G v) (hvalues : ∀ v ∈ values, G v)
    (h : bindArguments name i slot types values slots = .ok slots') : ∀ v ∈ slots', G v := by
  induction types generalizing i slot values slots with
  | nil =>
    cases h
    exact hslots
  | cons t types ih =>
    cases values with
    | nil =>
      cases h
      exact hslots
    | cons v values =>
      rw [List.forall_mem_cons] at hvalues
      rw [bindArguments] at h
      split at h
      · cases h
      · refine ih (fun u hu => ?_) hvalues.2 h
        rcases Array.mem_or_eq_of_mem_setIfInBounds hu with hu | rfl
        · exact hslots u hu
        · exact hvalues.1

theorem Frame.All.of_make {G : Value → Prop} (hnone : G .none) {cls : Class} {method : Method}
    {i : Invocation} {serial : Nat} {observed : Bool} {f : Frame}
    (hvalues : ∀ v ∈ i.nativeArguments, G v)
    (h : Frame.make cls method i.receiver i.parameters i.arguments serial observed = .ok f) :
    f.All G := by
  obtain ⟨target, callee, receiver, arguments, parameters⟩ := i
  obtain ⟨code, slots, -, -, -, hbind, rfl⟩ := make_eq_ok h
  have hempty : ∀ (n : Nat), ∀ v ∈ Array.replicate n Value.none, G v := by
    intro n v hv
    rw [Array.eq_of_mem_replicate hv]
    exact hnone
  cases receiver with
  | none => exact ⟨bindArguments_all (hempty _) hvalues hbind, nofun⟩
  | some v =>
    have hall := List.forall_mem_cons.mp hvalues
    refine ⟨bindArguments_all (fun u hu => ?_) hall.2 hbind, nofun⟩
    rcases Array.mem_or_eq_of_mem_setIfInBounds hu with hu | rfl
    · exact hempty _ u hu
    · exact hall.1

namespace Thread

/-! ### Steps -/

/-- All values in the frames, the static fields and the heap have the property. -/
structure Holds (G : Nat × Nat → Value → Prop) (n : Nat × Nat) (t : Thread) : Prop where
  frames : ∀ f ∈ t.frames, f.All (G t.world.heap.extent)
  world : t.world.Holds G n

variable {n : Nat × Nat}

theorem Holds.idle {w : World} (hw : w.Holds G n) : Holds G n ⟨[], w⟩ := ⟨nofun, hw⟩

section

variable {env : Environment} (hG : env.Upholds G)

include hG

theorem Holds.withWorld {t : Thread} {w : World} (ht : t.Holds G n)
    (hw : w.Holds G t.world.heap.extent) : Holds G n { t with world := w } where
  frames f hf := (ht.frames f hf).mono (hG.persistent.mono hw.grown)
  world := hw.weaken ht.world.grown

theorem Holds.push {cls : Class} {method : Method} {i : Invocation} {t u : Thread}
    (ht : t.Holds G n) (hi : i.Sound env (G t.world.heap.extent))
    (h : t.push env cls method i = .ok u) : u.Holds G n := by
  obtain ⟨-, f, hmake, rfl⟩ := push_eq_ok_iff.mp h
  have hf := Frame.All.of_make (hG.persistent.plain _ trivial) hi.arguments hmake
  exact ⟨List.forall_mem_cons.mpr ⟨hf, ht.frames⟩, ht.world.statics, ht.world.heap, ht.world.grown⟩

omit hG in
/-- What is left of a move has the property, and so has what is returned. -/
def Move.Holds (G : Nat × Nat → Value → Prop) (n : Nat × Nat) (below : List Frame) (m : Move) :
    Prop :=
  (m.thread below).Holds G n ∧ ∀ value w, m = .leave value w → G w.heap.extent value

theorem native_holds {i : Invocation} {run : Native} {method? : Option (Class × Method)}
    {site : CallSite} {t : Thread} {w : World} {result : Except Fault Value} (ht : t.Holds G n)
    (hi : i.Sound env (G t.world.heap.extent)) (hcallee : i.callee = .native run method?)
    (hrun : run site i.nativeArguments t.world = (result, w)) :
    Holds G n { t with world := w } ∧ ∀ v, result = .ok v → G w.heap.extent v := by
  obtain ⟨ref, href⟩ := hi.known run method? hcallee
  obtain ⟨hw, hanswer⟩ := hG.natives ref run href site _ _ _ _ hi.arguments ht.world.renew hrun
  exact ⟨ht.withWorld hG hw, hanswer⟩

theorem follows_holds {i : Instruction} {f : Frame} {below : List Frame} {w : World} {step : Step}
    {m : Move} (ht : Holds G n ⟨f :: below, w⟩) (hstep : step.Sound env (G w.heap.extent))
    (h : Follows env i f below w step m) : m.Holds G n below := by
  obtain ⟨hf, hbelow⟩ := List.forall_mem_cons.mp ht.frames
  have hwaiting : ∀ retry, Holds G n ⟨waiting f i retry :: below, w⟩ := fun retry =>
    ⟨List.forall_mem_cons.mpr ⟨⟨hf.slots, hf.stack⟩, hbelow⟩, ht.world⟩
  cases h with
  | next | jump | badJump => exact ⟨ht, nofun⟩
  | ret =>
    refine ⟨⟨hbelow, ht.world⟩, fun value' w' hm => ?_⟩
    cases hm
    exact hstep
  | native hcallee hrun =>
    obtain ⟨hholds, hanswer⟩ := native_holds hG (hwaiting _) hstep hcallee hrun
    have hframes := List.forall_mem_cons.mp hholds.frames
    refine ⟨⟨List.forall_mem_cons.mpr ⟨?_, hframes.2⟩, hholds.world⟩, nofun⟩
    exact hframes.1.received (hanswer _ rfl)
  | badNative hcallee hrun => exact ⟨(native_holds hG (hwaiting _) hstep hcallee hrun).1, nofun⟩
  | call hcallee hroom hmake =>
    have hcallee := Frame.All.of_make (hG.persistent.plain _ trivial) hstep.arguments hmake
    refine ⟨⟨List.forall_mem_cons.mpr ⟨hcallee, (hwaiting _).frames⟩, ?_⟩, nofun⟩
    exact ⟨ht.world.statics, ht.world.heap, ht.world.grown⟩
  | badCall => exact ⟨hwaiting _, nofun⟩

theorem takes_holds {f : Frame} {below : List Frame} {w : World} {pc : Nat} {m : Move}
    (ht : Holds G n ⟨f :: below, w⟩) (h : Takes env f below w pc m) : m.Holds G n below := by
  obtain ⟨hf, hbelow⟩ := List.forall_mem_cons.mp ht.frames
  have hs : Scene.Holds G n ⟨f, w⟩ := ⟨hf, ht.world⟩
  have hscene : ∀ {s : Scene}, s.Holds G w.heap.extent → Holds G n ⟨s.frame :: below, s.world⟩ := by
    intro s hs
    refine ⟨List.forall_mem_cons.mpr ⟨hs.frame, fun g hg => ?_⟩, hs.world.weaken ht.world.grown⟩
    exact (hbelow g hg).mono (hG.persistent.mono hs.world.grown)
  cases h with
  | offEnd hpc =>
    refine ⟨⟨hbelow, ht.world⟩, fun value w' hm => ?_⟩
    cases hm
    exact hG.persistent.plain _ trivial
  | unknown hpc hat => exact ⟨ht, nofun⟩
  | fails hpc hat hexec => exact ⟨hscene (hG.execute hs hexec).1, nofun⟩
  | follows hpc hat hexec hfollows =>
    obtain ⟨hholds, hsound⟩ := hG.execute hs hexec
    exact follows_holds hG (hscene hholds) (hsound _ rfl) hfollows

theorem step_holds {t : Thread} (ht : t.Holds G n) (base pc : Nat) :
    (step env base t pc).thread.Holds G n := by
  obtain ⟨_ | ⟨f, below⟩, w⟩ := t
  · exact ht
  · obtain ⟨m, htakes, hstep⟩ := exists_takes env f below w pc
    obtain ⟨hthread, hleave⟩ := takes_holds hG ht htakes
    rw [hstep]
    refine Move.progress_thread base hthread (fun t k ht => ?_) fun value caller rest w' hm ht => ?_
    · exact ⟨fun g hg => ht.frames g (List.mem_of_mem_drop hg), ht.world⟩
    · have hframes := List.forall_mem_cons.mp ht.frames
      refine ⟨List.forall_mem_cons.mpr ⟨?_, hframes.2⟩, ht.world⟩
      exact hframes.1.received (hleave value w' hm)

/-! ### Calls and runs -/

omit hG in
theorem sound_entryCall {c : Class} {r : MemberRef} {arguments : List Value} {i : Invocation}
    {G : Value → Prop} (harguments : ∀ v ∈ arguments, G v)
    (h : entryCall env c r arguments = .ok i) : i.Sound env G := by
  unfold entryCall at h
  split at h
  · cases h
  · rename_i m _
    split at h
    · cases h
    · cases htype : m.type with
      | error f =>
        rw [htype] at h
        cases h
      | ok d =>
        have hbind : env.bind c m (Option.map Value.reference none) arguments d.parameters =
            .ok i := by
          rw [htype] at h
          exact h
        refine Exec.sound_bind ?_ harguments hbind
        exact nofun

theorem holds_runInvariant : RunInvariant env (Holds G n) (Invocation.Sound env (G n)) where
  load name ht :=
    ht.withWorld hG (ht.world.renew.withArea ((hG.stable _).load _ name ht.world.statics))
  claim c ht := ht.withWorld hG (ht.world.renew.withArea (ht.world.statics.claimFrom env _))
  initializer h := Exec.sound_claimFrom (Except.ok.inj h)
  native ht hi hcallee := by
    have hi := hi.mono (hG.persistent.mono ht.world.grown)
    unfold callNative
    split <;> rename_i hrun <;> exact (native_holds hG ht hi hcallee hrun).1
  push ht hi h := ht.push hG (hi.mono (hG.persistent.mono ht.world.grown)) h
  step base pc ht := step_holds hG ht base pc

/-- A run that starts where all values have the property, with arguments that have it, goes on so. -/
theorem RunState.holds {r : MemberRef} {arguments : List Value} {t u : Thread} (ht : t.Holds G n)
    (harguments : ∀ v ∈ arguments, G n v) (h : RunState env r arguments t u) : u.Holds G n :=
  (holds_runInvariant hG).runState (fun _ _ hcall => sound_entryCall harguments hcall) ht h

end

end Thread

/-! ### Entry points -/

theorem World.holds_intern (n : Nat × Nat) (content : String) :
    Keeps (World.Holds G n) (World.intern content) := by
  intro w hw
  refine ⟨?_, fun _ _ => trivial⟩
  rcases World.intern_cases content w with ⟨serial, -, heq⟩ | ⟨-, heq⟩
  · rwa [heq]
  · rw [heq]
    exact ⟨hw.statics, ⟨hw.heap.fields, hw.heap.elements⟩, hw.grown⟩

namespace Runtime

theorem entryArguments_cases (r : MemberRef) (arguments : List String) :
    (∃ f, entryArguments r arguments = Effect.fail f) ∨ entryArguments r arguments = pure [] ∨
      entryArguments r arguments = (do
        let strings ← World.internAll arguments
        let array ← World.newArray "Ljava/lang/String;" (strings.map Value.reference)
        return [.reference array]) := by
  unfold entryArguments
  cases MethodDescriptor.parse r.descriptor with
  | error f => exact .inl ⟨f, rfl⟩
  | ok d =>
    have hbind : ∀ k : MethodDescriptor → Effect World (List Value),
        (Effect.ofExcept (.ok d) >>= k) = k d := fun _ => rfl
    rw [hbind]
    split
    · exact .inr (.inl rfl)
    · exact .inr (.inr rfl)
    · exact .inl ⟨_, rfl⟩

/-- What comes of the arguments of an entry point: a failure or nothing, in a world that is left as
it was, or a new array of their canonical strings. -/
theorem entryArguments_outcome {r : MemberRef} {arguments : List String} {w w' : World}
    {result : Except Fault (List Value)} (h : entryArguments r arguments w = (result, w')) :
    w' = w ∧ ((∃ f, result = .error f) ∨ result = .ok []) ∨
      ∃ strings u, World.internAll arguments w = (.ok strings, u) ∧
        result = .ok [.reference (.array u.heap.arrays.size)] ∧
        w' = { u with heap := (u.heap.newArray "Ljava/lang/String;"
          (strings.map Value.reference)).2 } := by
  rcases entryArguments_cases r arguments with ⟨f, hfails⟩ | hnone | harray
  · rw [hfails] at h
    cases h
    exact .inl ⟨rfl, .inl ⟨f, rfl⟩⟩
  · rw [hnone] at h
    cases h
    exact .inl ⟨rfl, .inr rfl⟩
  · obtain ⟨strings, u, hstrings, -⟩ := World.internAll_spec arguments w
    rw [harray, bind_apply, hstrings] at h
    cases h
    exact .inr ⟨strings, u, hstrings, rfl, rfl⟩

theorem holds_entryArguments (hG : Value.Persistent G) {n : Nat × Nat} {r : MemberRef}
    {arguments : List String} {w w' : World} {result : Except Fault (List Value)}
    (hw : w.Holds G n) (h : entryArguments r arguments w = (result, w')) :
    w'.Holds G n ∧ ∀ values, result = .ok values → ∀ v ∈ values, G w'.heap.extent v := by
  rcases entryArguments_outcome h with ⟨rfl, ⟨f, rfl⟩ | rfl⟩ | ⟨strings, u, hall, rfl, rfl⟩
  · exact ⟨hw, of_error⟩
  · refine ⟨hw, fun values hvalues => ?_⟩
    cases hvalues
    exact nofun
  · have hu := (World.keeps_internAll (World.holds_intern n) arguments).apply hw hall
    have hstrings : ∀ v ∈ strings.map Value.reference, v.Plain := by
      intro v hv
      obtain ⟨r, hr, rfl⟩ := List.mem_map.mp hv
      obtain ⟨content, serial, rfl⟩ := World.exists_fresh_of_internAll hall hr
      trivial
    have hnew := hu.newArray hG "Ljava/lang/String;" hstrings
    refine ⟨hnew.weaken (hu.grown.trans (u.heap.extent_newArray _ _)), fun values hvalues => ?_⟩
    cases hvalues
    rw [List.forall_mem_singleton]
    exact hG.newArray u.heap _ _

theorem EntryState.holds {env : Environment} (hG : env.Upholds G) {n : Nat × Nat} {r : MemberRef}
    {arguments : List String} {rt : Runtime} {u : Thread} (hrt : rt.world.Holds G n)
    (h : EntryState env r arguments rt u) : u.Holds G n := by
  cases h with
  | prepared hargs => exact .idle (holds_entryArguments hG.persistent hrt hargs).1
  | running hargs hrun =>
    obtain ⟨hw, hvalues⟩ := holds_entryArguments hG.persistent hrt hargs
    have hu := hrun.holds hG (.idle hw.renew) (hvalues _ rfl)
    exact ⟨hu.frames, hu.world.weaken hw.grown⟩

end Runtime

/-- The worlds that come of one thing after the other: of runs of static methods, with arguments in
`A`, and of making the arguments of entry points. -/
inductive World.Reached (env : Environment) (A : Value → Prop) : World → Prop where
  | empty : Reached env A .empty
  | prepared {w w' : World} {r : MemberRef} {arguments : List String}
    {result : Except Fault (List Value)} (h : Reached env A w)
    (hargs : Runtime.entryArguments r arguments w = (result, w')) : Reached env A w'
  | ran {w : World} {fuel : Nat} {r : MemberRef} {arguments : List Value}
    {result : Except Fault Value} {u : Thread} (h : Reached env A w)
    (harguments : ∀ v ∈ arguments, A v)
    (hrun : Thread.run env fuel r arguments ⟨[], w⟩ = some (result, u)) : Reached env A u.world

theorem World.Reached.holds {env : Environment} (hG : env.Upholds G) {A : Value → Prop}
    (hA : ∀ n v, A v → G n v) {w : World} (h : Reached env A w) : w.Holds G (0, 0) := by
  induction h with
  | empty => exact .empty G
  | prepared h hargs ih => exact (Runtime.holds_entryArguments hG.persistent ih hargs).1
  | ran h harguments hrun ih =>
    have hended := Thread.RunState.ended hrun
    exact (hended.holds hG (.idle ih) fun v hv => hA (0, 0) v (harguments v hv)).world

end Jvm
