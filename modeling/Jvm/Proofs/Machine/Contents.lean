import Jvm.Proofs.Machine.Composition
import Jvm.Proofs.Machine.Typing

/-!
# What scenes contain

A composed computation that starts with values in `G` everywhere, in its frame, in the static fields
of the loaded classes and in the heap, ends with values in `G` everywhere. It answers as its record
says and fails with the faults that its record allows, it allocates nothing, and its frame keeps its
code.
-/

namespace Jvm

open Effect
open Scene (onFrame onWorld)

variable {G : Value → Prop}

/-! ### The method area -/

def MethodArea.All (G : Value → Prop) (a : MethodArea) : Prop :=
  ∀ name e, a.entry? name = some e → ∀ v ∈ e.statics, G v

theorem Value.plain_zeroOf (descriptor : String) : (zeroOf descriptor).Plain := by
  unfold zeroOf
  cases Kind.ofDescriptor? descriptor with
  | none => trivial
  | some kind => cases kind <;> trivial

/-- A static field starts with a number, with null, or with a string of its own, whose content is the
constant of the field. -/
theorem Class.staticInitial_cases {file : ClassFile} {slot : Nat} {f : Field} {v : Value}
    (h : staticInitial file slot f = .ok v) :
    v.Plain ∨ ∃ content, file.pool.string f.constantValue = .ok content ∧
      v = .reference (.string content (.staticField file.name slot)) := by
  have hnumber : ∀ {α : Type} {g : α → Value} {r : Except Fault α},
      (∀ x, (g x).Plain) → g <$> r = .ok v → v.Plain := by
    intro α g r hg hr
    cases r with
    | error e => cases hr
    | ok x =>
      cases hr
      exact hg x
  unfold staticInitial at h
  dsimp only at h
  split at h
  · cases h
    exact .inl (Value.plain_zeroOf f.descriptor)
  · split at h
    · exact .inl (hnumber (fun _ => by trivial) h)
    · exact .inl (hnumber (fun _ => by trivial) h)
    · exact .inl (hnumber (fun _ => by trivial) h)
    · exact .inl (hnumber (fun _ => by trivial) h)
    · cases hcontent : file.pool.string f.constantValue with
      | error e =>
        rw [hcontent] at h
        cases h
      | ok content =>
        rw [hcontent] at h
        cases h
        exact .inr ⟨content, rfl, rfl⟩

theorem Class.unboxed_staticInitial {file : ClassFile} {slot : Nat} {f : Field} {v : Value}
    (h : staticInitial file slot f = .ok v) : v.Unboxed := by
  rcases staticInitial_cases h with hplain | ⟨content, -, rfl⟩
  · exact hplain.unboxed
  · trivial

theorem Class.mem_staticInitialsFrom {file : ClassFile} {fields : List Field} {start : Nat}
    {vs : List Value} (h : staticInitialsFrom file start fields = .ok vs) {v : Value} (hv : v ∈ vs) :
    ∃ slot f, fields[slot]? = some f ∧ staticInitial file (start + slot) f = .ok v := by
  induction fields generalizing start vs with
  | nil =>
    cases h
    cases hv
  | cons f rest ih =>
    obtain ⟨u, vs', hu, hvs, rfl⟩ := staticInitialsFrom_cons_eq_ok h
    rcases List.mem_cons.mp hv with rfl | hv
    · exact ⟨0, f, rfl, hu⟩
    · obtain ⟨slot, g, hg, hinitial⟩ := ih hvs hv
      refine ⟨slot + 1, g, hg, ?_⟩
      rwa [Nat.add_right_comm, Nat.add_assoc] at hinitial

namespace MethodArea.All

variable {a b : MethodArea}

theorem empty : All G .empty := fun _ _ h => nomatch h

theorem marked (h : All G a) (names : List String) : All G (a.marked names) := by
  intro name e he
  rw [entry?_marked] at he
  obtain ⟨e', he', rfl⟩ := Option.map_eq_some_iff.mp he
  exact h name e' he'

theorem claimFrom (env : Environment) (cs : List Class) (h : All G a) :
    All G (env.claimFrom cs a).2 := by
  induction cs generalizing a with
  | nil => exact h
  | cons c rest ih =>
    unfold Environment.claimFrom
    split
    · exact ih h
    · rename_i b hclaim
      obtain ⟨-, rfl⟩ := claim?_eq_some hclaim
      split
      · exact h.marked _
      · exact ih (h.marked _)

theorem stable {env : Environment}
    (hG : ∀ file slot f v, env.loader.classFile file.name = .ok file →
      (Class.staticFields file)[slot]? = some f → Class.staticInitial file slot f = .ok v → G v) :
    env.Stable (All G) where
  load a name h := by
    intro n e he
    rcases env.loader.ensure_source name he with hbefore | ⟨hfresh, hsource⟩
    · exact h n e hbefore
    · intro v hv
      obtain ⟨slot, f, hf, hinitial⟩ := Class.mem_staticInitialsFrom hfresh.statics hv
      rw [Nat.zero_add] at hinitial
      have hname : e.cls.file.name = n := Loader.classFile_name hsource
      exact hG _ slot f v (by rw [hname, hsource]) hf hinitial
  start c a h := h.claimFrom env _

theorem setStatic {c : Class} {name descriptor : String} {v : Value} (h : All G a) (hv : G v)
    (hset : a.setStatic c name descriptor v = .ok b) : All G b := by
  obtain ⟨slot, -, rfl⟩ := setStatic_eq hset
  intro n e he
  rw [entry?_modify a (cls_stored slot v), Option.map_eq_some_iff] at he
  obtain ⟨e', he', rfl⟩ := he
  intro u hu
  split at hu
  · rcases List.mem_or_eq_of_mem_set hu with hu | rfl
    · exact h n e' he' u hu
    · exact hv
  · exact h n e' he' u hu

theorem static {c : Class} {name descriptor : String} {v : Value} (h : All G a)
    (hnone : G .none) (hget : a.static c name descriptor = .ok v) : G v := by
  unfold MethodArea.static at hget
  split at hget
  · cases hget
  · rename_i slot _
    cases hget
    cases hentry : a.entry? c.name with
    | none => exact hnone
    | some e =>
      rw [Option.bind_some]
      cases hslot : e.statics[slot]? with
      | none => exact hnone
      | some u => exact h _ e hentry u (List.mem_of_getElem? hslot)

end MethodArea.All

/-! ### The heap -/

def Heap.extent (h : Heap) : Nat × Nat := (h.instances.size, h.arrays.size)

theorem Heap.All.setField? {h h' : Heap} {r : Reference} {key : MemberRef} {v : Value}
    (hall : h.All G) (hv : G v) (hset : h.setField? r key v = some h') :
    h'.All G ∧ h'.extent = h.extent := by
  cases r with
  | array n => cases hset
  | string content origin => cases hset
  | object n =>
    obtain ⟨i, hi, hrest⟩ := Option.bind_eq_some_iff.mp hset
    obtain ⟨slot, -, hdone⟩ := Option.bind_eq_some_iff.mp hrest
    cases hdone
    refine ⟨⟨fun j hj => ?_, hall.elements⟩, by simp [extent]⟩
    rcases Array.mem_or_eq_of_mem_setIfInBounds hj with hj | rfl
    · exact hall.fields j hj
    · intro u hu
      rcases List.mem_or_eq_of_mem_set hu with hu | rfl
      · exact hall.fields i (Array.mem_of_getElem? hi) u hu
      · exact hv

/-! ### Frames -/

/-- All locals and all values on the operand stack satisfy `G`. -/
structure Frame.All (G : Value → Prop) (f : Frame) : Prop where
  slots : ∀ v ∈ f.slots, G v
  stack : ∀ v ∈ f.stack, G v

namespace Frame.All

theorem pushed {f : Frame} {v : Value} (h : All G f) (hv : G v) : All G (f.pushed v) :=
  ⟨h.slots, List.forall_mem_cons.mpr ⟨hv, h.stack⟩⟩

theorem received {f : Frame} {v : Value} (h : All G f) (hv : G v) : All G (f.received v) := by
  unfold Frame.received
  split
  · exact h.pushed hv
  · exact h

theorem yields_pop : Yields (All G) Frame.pop G := by
  intro f hf
  unfold Frame.pop
  split
  · exact ⟨hf, of_error⟩
  · rename_i v rest hstack
    have hvalues := hf.stack
    rw [hstack, List.forall_mem_cons] at hvalues
    refine ⟨⟨hf.slots, hvalues.2⟩, fun u hu => ?_⟩
    cases hu
    exact hvalues.1

theorem yields_peek : Yields (All G) Frame.peek G := by
  intro f hf
  unfold Frame.peek
  split
  · exact ⟨hf, of_error⟩
  · rename_i v rest hstack
    have hvalues := hf.stack
    rw [hstack, List.forall_mem_cons] at hvalues
    refine ⟨hf, fun u hu => ?_⟩
    cases hu
    exact hvalues.1

theorem yields_getLocal (index : Int) : Yields (All G) (Frame.getLocal index) G := by
  intro f hf
  unfold Frame.getLocal
  split
  · exact ⟨hf, of_error⟩
  · split
    · rename_i v hv
      refine ⟨hf, fun u hu => ?_⟩
      cases hu
      exact hf.slots v (Array.mem_of_getElem? hv)
    · exact ⟨hf, of_error⟩

theorem storedSlots {slots : Array Value} (hslots : ∀ u ∈ slots, G u) (index : Nat) {v : Value}
    (hv : G v) (hnone : G .none) : ∀ u ∈ Frame.storedSlots slots index v, G u := by
  have hset : ∀ {slots : Array Value} {i : Nat} {w : Value}, (∀ u ∈ slots, G u) → G w →
      ∀ u ∈ slots.setIfInBounds i w, G u := by
    intro slots i w hslots hw u hu
    rcases Array.mem_or_eq_of_mem_setIfInBounds hu with hu | rfl
    · exact hslots u hu
    · exact hw
  unfold Frame.storedSlots
  dsimp only
  split
  · exact hset (hset hslots hv) hnone
  · exact hset hslots hv

end Frame.All

theorem Frame.code_pop (f : Frame) : (Frame.pop f).2.code = f.code := by
  unfold Frame.pop
  split <;> rfl

theorem Frame.code_peek (f : Frame) : (Frame.peek f).2.code = f.code := by
  unfold Frame.peek
  split <;> rfl

theorem Frame.code_getLocal (index : Int) (f : Frame) :
    (Frame.getLocal index f).2.code = f.code := by
  unfold Frame.getLocal
  split
  · rfl
  · split <;> rfl

section

variable {F : Fault → Prop} (hF : Fault.Family Exec.kinds F)

include hF

theorem Frame.raises_pop : Frame.pop.Raises F := by
  intro f
  unfold Frame.pop
  split
  · exact .error (hF.of _ (by decide) (by decide))
  · exact .ok _

theorem Frame.raises_peek : Frame.peek.Raises F := by
  intro f
  unfold Frame.peek
  split
  · exact .error (hF.of _ (by decide) (by decide))
  · exact .ok _

theorem Frame.raises_getLocal (index : Int) : (Frame.getLocal index).Raises F := by
  intro f
  unfold Frame.getLocal
  split
  · exact .error (hF.of _ (by decide) (by decide))
  · split
    · exact .ok _
    · exact .error (hF.of _ (by decide) (by decide))

end

/-- The number of slots that a value takes. -/
def Value.width (v : Value) : Nat := if v.isWide then 2 else 1

theorem Frame.setLocal_eq (f : Frame) (index : Nat) (v : Value) :
    setLocal index v f =
      if f.slots.size < index + v.width then (.error (f.noSlot (index + v.width - 1)), f)
      else (.ok (), { f with slots := storedSlots f.slots index v }) := by
  have hroom : (((index : Int) < 0 ∨ (f.slots.size : Int) < index + v.width) ↔
      f.slots.size < index + v.width) := by
    omega
  rw [← if_congr hroom rfl rfl]
  rfl

def Scene.records (depth index : Nat) (v : Value) (s : Scene) : List Store :=
  if s.frame.observed then
    [⟨s.frame.serial, s.frame.label, index, v, s.frame.stackDepth, depth⟩]
  else []

theorem Scene.store_eq (depth index : Nat) (v : Value) (s : Scene) :
    Scene.store depth index v s =
      if s.frame.slots.size < index + v.width then
        (.error (s.frame.noSlot (index + v.width - 1)), s)
      else (.ok (), {
        frame := { s.frame with slots := Frame.storedSlots s.frame.slots index v }
        world := { s.world with stores := s.records depth index v ++ s.world.stores } }) := by
  rw [Scene.store, Frame.setLocal_eq, records]
  by_cases hfull : s.frame.slots.size < index + v.width
  · rw [if_pos hfull, if_pos hfull]
  · rw [if_neg hfull, if_neg hfull]
    cases hobserved : s.frame.observed with
    | true =>
      simp only [hobserved]
      rfl
    | false =>
      simp only [hobserved]
      rfl

theorem Scene.onWorld_intern (content : String) (s : Scene) :
    ∃ serial, (onWorld (World.intern content) s).1 = .ok (.string content (.fresh serial)) ∧
      ((onWorld (World.intern content) s).2 = s ∨
        (onWorld (World.intern content) s).2 =
          { s with world := { s.world with
              heap := (s.world.heap.newString content).2
              strings := (content, s.world.heap.freshStrings) :: s.world.strings } }) := by
  unfold onWorld Effect.zoom
  rcases World.intern_cases content s.world with ⟨serial, -, heq⟩ | ⟨-, heq⟩
  · rw [heq]
    exact ⟨serial, rfl, .inl rfl⟩
  · rw [heq]
    exact ⟨_, rfl, .inr rfl⟩

/-! ### Scenes -/

/-- Everything in a scene satisfies `G`, the heap has the given extent, and this is the code of the
frame. -/
structure Scene.All (G : Value → Prop) (n : Nat × Nat) (c : Code) (s : Scene) : Prop where
  frame : s.frame.All G
  statics : s.world.area.All G
  heap : s.world.heap.All G
  extent : s.world.heap.extent = n
  code : s.frame.code = c

theorem Scene.All.trivial (s : Scene) :
    s.All (fun _ => True) s.world.heap.extent s.frame.code where
  frame := ⟨fun _ _ => True.intro, fun _ _ => True.intro⟩
  statics _ _ _ _ _ := True.intro
  heap := ⟨fun _ _ _ _ => True.intro, fun _ _ _ _ => True.intro⟩
  extent := rfl
  code := rfl

section

variable {n : Nat × Nat} {c : Code}

theorem Scene.All.withArea {s : Scene} {b : MethodArea} (h : s.All G n c) (hb : b.All G) :
    (s.withArea b).All G n c :=
  ⟨h.frame, hb, h.heap, h.extent, h.code⟩

theorem Scene.All.onFrame {α : Type} {P : α → Prop} {m : Effect Frame α}
    (h : Yields (Frame.All G) m P) (hcode : ∀ f, (m f).2.code = f.code) :
    Yields (Scene.All G n c) (onFrame m) P := by
  intro s hs
  obtain ⟨hframe, hanswer⟩ := h s.frame hs.frame
  exact ⟨⟨hframe, hs.statics, hs.heap, hs.extent, (hcode s.frame).trans hs.code⟩, hanswer⟩

end

namespace Exec.Composed

variable {env : Environment} {depth : Nat} {F : Fault → Prop} {α : Type} {P : α → Prop}
  {m : Exec α}

/-- A composed computation keeps what is everywhere, and answers as its record says. -/
theorem yields (hstable : env.Stable (MethodArea.All G)) (hnone : G .none)
    (h : Composed env depth F G m P) (n : Nat × Nat) (c : Code) :
    Yields (Scene.All G n c) m P := by
  induction h with
  | pure h => exact .pure h
  | ofExcept hok hraises => exact .ofExcept hok
  | bind hm hk ihm ihk => exact ihm.bind ihk
  | mono h hPQ ih => exact ih.mono hPQ
  | pool | currentClass => exact fun s hs => ⟨hs, fun _ _ => trivial⟩
  | heap =>
    intro s hs
    refine ⟨hs, fun h hh => ?_⟩
    cases hh
    exact hs.heap
  | pop => exact Scene.All.onFrame Frame.All.yields_pop Frame.code_pop
  | peek => exact Scene.All.onFrame Frame.All.yields_peek Frame.code_peek
  | getLocal index =>
    exact Scene.All.onFrame (Frame.All.yields_getLocal index) (Frame.code_getLocal index)
  | push hv =>
    exact Scene.All.onFrame (fun f hf => ⟨hf.pushed hv, fun _ _ => trivial⟩) fun _ => rfl
  | intern content hstrings =>
    intro s hs
    obtain ⟨serial, hanswer, hkept⟩ := Scene.onWorld_intern content s
    refine ⟨?_, fun r hr => ?_⟩
    · rcases hkept with hsame | hnew
      · rwa [hsame]
      · rw [hnew]
        exact ⟨hs.frame, hs.statics, ⟨hs.heap.fields, hs.heap.elements⟩, hs.extent, hs.code⟩
    · rw [hanswer] at hr
      cases hr
      exact hstrings serial
  | @recover α β P Q e k g hraises hyields hk hg ihk ihg =>
    intro s hs
    obtain ⟨hkept, hanswer⟩ := hyields _ hstable s.world.area hs.statics
    rcases he : e s.world.area with ⟨f | a, b⟩
    · rw [he] at hkept
      have hrest := ihg f ((hraises s.world.area) f (by rw [he])) (s.withArea b)
        (hs.withArea hkept)
      simpa only [Exec.recover, onArea_of_eq he] using hrest
    · rw [he] at hkept hanswer
      have hrest := ihk a (hanswer a rfl) (s.withArea b) (hs.withArea hkept)
      simpa only [Exec.recover, onArea_of_eq he] using hrest
  | store index hv =>
    intro s hs
    refine ⟨?_, fun _ _ => trivial⟩
    rw [Scene.store_eq]
    split
    · exact hs
    · exact ⟨⟨Frame.All.storedSlots hs.frame.slots _ hv hnone, hs.frame.stack⟩,
        hs.statics, hs.heap, hs.extent, hs.code⟩
  | readStatic c r =>
    exact fun s hs => ⟨hs, fun v hv => hs.statics.static hnone hv⟩
  | writeStatic c r hv =>
    intro s hs
    unfold Exec.writeStatic
    split
    · rename_i b hset
      refine ⟨hs.withArea (hs.statics.setStatic hv hset), fun step hstep => ?_⟩
      cases hstep
      trivial
    · exact ⟨hs, of_error⟩
  | writeField target key hv hf =>
    intro s hs
    unfold Exec.writeField
    split
    · rename_i h hset
      obtain ⟨hheap, hextent⟩ := hs.heap.setField? hv hset
      refine ⟨⟨hs.frame, hs.statics, hheap, hextent.trans hs.extent, hs.code⟩,
        fun step hstep => ?_⟩
      cases hstep
      trivial
    · exact ⟨hs, of_error⟩

theorem answer {s t : Scene} {a : α} (h : Composed env depth F (fun _ => True) m P)
    (hm : m s = (.ok a, t)) : P a := by
  have hstable : env.Stable (MethodArea.All fun _ => True) :=
    MethodArea.All.stable fun _ _ _ _ _ _ _ => True.intro
  have hyields := h.yields hstable True.intro s.world.heap.extent s.frame.code
  exact (hyields s (Scene.All.trivial s)).2 a (by rw [hm])

theorem raises (hF : Fault.Family kinds F) (h : Composed env depth F (fun _ => True) m P) :
    m.Raises F := by
  induction h with
  | pure h => exact .pure _
  | ofExcept hok hraises => exact .ofExcept hraises
  | mono h hPQ ih => exact ih
  | @bind α β P Q m k hm hk ihm ihk =>
    intro s
    rw [bind_apply]
    rcases hs : m s with ⟨f | a, t⟩
    · exact .error (ihm.apply hs)
    · -- The rest is known to fail well only on answers that the record allows.
      exact ihk a (hm.answer hs) t
  | @recover α β P Q e k g hraises hyields hk hg ihk ihg =>
    intro s
    have hP : ∀ a b, e s.world.area = (.ok a, b) → P a := by
      intro a b he
      exact (hyields _ (.trivial env) s.world.area True.intro).2 a (by rw [he])
    rcases he : e s.world.area with ⟨f | a, b⟩
    · simp only [Exec.recover, onArea_of_eq he]
      exact ihg f (hraises.apply he) (s.withArea b)
    · simp only [Exec.recover, onArea_of_eq he]
      exact ihk a (hP a b he) (s.withArea b)
  | pool | currentClass | heap => exact fun s => .ok _
  | push hv => exact fun s => .ok _
  | intern content hstrings =>
    intro s
    obtain ⟨serial, hanswer, -⟩ := Scene.onWorld_intern content s
    rw [hanswer]
    exact .ok _
  | pop => exact (Frame.raises_pop hF).zoom
  | peek => exact (Frame.raises_peek hF).zoom
  | getLocal index => exact (Frame.raises_getLocal hF index).zoom
  | store index hv =>
    intro s
    rw [Scene.store_eq]
    split
    · exact .error (hF.of _ (by decide) (by decide))
    · exact .ok _
  | readStatic c r =>
    intro s
    simp only [Exec.readStatic, MethodArea.static]
    split
    · exact .error (hF.of _ (by decide) (by decide))
    · exact .ok _
  | writeStatic c r hv =>
    intro s
    simp only [Exec.writeStatic, MethodArea.setStatic]
    split
    · exact .ok _
    · rename_i hset
      split at hset
      · cases hset
        exact .error (hF.of _ (by decide) (by decide))
      · cases hset
  | writeField target key hv hf =>
    intro s
    unfold Exec.writeField
    split
    · exact .ok _
    · exact .error hf

end Exec.Composed

theorem Environment.raises_execute {env : Environment} {F : Fault → Prop}
    (T : Exec.Terms env F fun _ => True) (depth : Nat) (i : Instruction) :
    (env.execute depth i).Raises F := by
  obtain ⟨m, hm, heq⟩ := Exec.execute_composed depth T i
  rw [heq]
  refine (hm.raises T.faults).bind fun ending => ?_
  cases ending with
  | inl step => exact .pure step
  | inr c => exact fun s => .ok _

theorem Environment.execute_sound {env : Environment} {depth : Nat} {i : Instruction}
    {s t : Scene} {step : Step} (h : env.execute depth i s = (.ok step, t)) :
    step.Sound env fun _ => True := by
  obtain ⟨m, hm, heq⟩ := Exec.execute_composed depth (.trivial env) i
  rw [heq] at h
  obtain ⟨ending, u, hmu, hend⟩ := Effect.bind_eq_ok.mp h
  have hsound := hm.answer hmu
  cases ending with
  | inl step' =>
    cases hend
    exact hsound
  | inr c =>
    cases hend
    trivial

/-! ### What the parts keep -/

/-- A property of scenes that the parts of instructions keep, whatever they put on the stack, into
classes and into the heap. -/
structure Exec.Kept (depth : Nat) (I : Scene → Prop) : Prop where
  stack {s : Scene} (values : List Value) (hs : I s) :
    I { s with frame := { s.frame with stack := values } }
  area {s : Scene} (a : MethodArea) (hs : I s) : I (s.withArea a)
  heap {s : Scene} (h : Heap) (hmade : h.freshStrings = s.world.heap.freshStrings) (hs : I s) :
    I { s with world := { s.world with heap := h } }
  intern {s : Scene} (content : String) (hs : I s) : I (onWorld (World.intern content) s).2
  store {s : Scene} (index : Nat) (v : Value) (hs : I s) : I (Scene.store depth index v s).2

namespace Exec.Kept

variable {depth : Nat} {I : Scene → Prop} (hI : Kept depth I)

include hI

theorem composed {env : Environment} {F : Fault → Prop} {α : Type} {P : α → Prop} {m : Exec α}
    (h : Composed env depth F (fun _ => True) m P) : Keeps I m := by
  have hframe : ∀ {β : Type} {e : Effect Frame β},
      (∀ f, ∃ values, (e f).2 = { f with stack := values }) → Keeps I (onFrame e) := by
    intro β e he s hs
    obtain ⟨values, hstack⟩ := he s.frame
    refine ⟨?_, fun _ _ => True.intro⟩
    show I { s with frame := (e s.frame).2 }
    rw [hstack]
    exact hI.stack values hs
  induction h with
  | pure h => exact .pure True.intro
  | ofExcept hok hraises => exact .ofExcept _
  | mono h hPQ ih => exact ih
  | @bind α β P Q m k hm hk ihm ihk =>
    intro s hs
    rw [bind_apply]
    rcases hms : m s with ⟨f | a, t⟩
    · exact ⟨ihm.apply hs hms, of_error⟩
    · exact ihk a (hm.answer hms) t (ihm.apply hs hms)
  | @recover α β P Q e k g hraises hyields hk hg ihk ihg =>
    intro s hs
    rcases he : e s.world.area with ⟨f | a, b⟩
    · have hrest := ihg f (hraises.apply he) (s.withArea b) (hI.area b hs)
      simpa only [Exec.recover, onArea_of_eq he] using hrest
    · have ha : P a := (hyields _ (.trivial env) s.world.area True.intro).2 a (by rw [he])
      have hrest := ihk a ha (s.withArea b) (hI.area b hs)
      simpa only [Exec.recover, onArea_of_eq he] using hrest
  | pool | currentClass | heap | readStatic => exact fun s hs => ⟨hs, fun _ _ => True.intro⟩
  | pop =>
    refine hframe fun f => ?_
    unfold Frame.pop
    split
    · exact ⟨f.stack, rfl⟩
    · rename_i rest _
      exact ⟨rest, rfl⟩
  | peek =>
    refine hframe fun f => ⟨f.stack, ?_⟩
    unfold Frame.peek
    split <;> rfl
  | getLocal index =>
    refine hframe fun f => ⟨f.stack, ?_⟩
    unfold Frame.getLocal
    split
    · rfl
    · split <;> rfl
  | push hv => exact hframe fun f => ⟨_, rfl⟩
  | intern content hstrings => exact fun s hs => ⟨hI.intern content hs, fun _ _ => True.intro⟩
  | store index hv => exact fun s hs => ⟨hI.store index _ hs, fun _ _ => True.intro⟩
  | writeStatic c r hv =>
    intro s hs
    unfold Exec.writeStatic
    split
    · exact ⟨hI.area _ hs, fun _ _ => True.intro⟩
    · exact ⟨hs, of_error⟩
  | writeField target key hv hf =>
    intro s hs
    unfold Exec.writeField
    split
    · rename_i hset
      exact ⟨hI.heap _ (Heap.freshStrings_setField? hset) hs, fun _ _ => True.intro⟩
    · exact ⟨hs, of_error⟩

/-- What the parts keep is kept by every instruction. -/
theorem execute (env : Environment) (i : Instruction) {s : Scene} (hs : I s) :
    I (env.execute depth i s).2 := by
  obtain ⟨m, hm, heq⟩ := Exec.execute_composed depth (.trivial env) i
  have hkept := (hI.composed hm s hs).1
  rw [heq, bind_apply]
  rcases hms : m s with ⟨f | step | c, t⟩
  · rwa [hms] at hkept
  · rwa [hms] at hkept
  · -- The new instance is allocated and pushed at the end.
    rw [hms] at hkept
    exact hI.stack _ (hI.heap _ rfl hkept)

end Exec.Kept

theorem Environment.code_execute (env : Environment) (depth : Nat) (i : Instruction) (s : Scene) :
    (env.execute depth i s).2.frame.code = s.frame.code := by
  have hkept : Exec.Kept depth fun t => t.frame.code = s.frame.code := by
    refine ⟨fun _ ht => ht, fun _ ht => ht, fun _ _ ht => ht, fun _ ht => ht, fun index v ht => ?_⟩
    rw [Scene.store_eq]
    split <;> exact ht
  exact hkept.execute env i rfl

end Jvm
