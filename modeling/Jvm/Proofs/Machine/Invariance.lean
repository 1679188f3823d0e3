import Jvm.Proofs.Machine.Balance
import Jvm.Proofs.Machine.Guarding
import Jvm.Proofs.Machine.Interning

/-!
# Invariants of runs

Whatever the code, it reaches the loaded classes and the heap through a few operations. An
`Invariant` is a property of what is on operand stacks together with a property of classes and heap
that these operations keep; then every instruction keeps it, and so do the steps, the loops and the
runs that are made of instructions.
-/

namespace Jvm

open Scene (onFrame onWorld onArea)
open MethodArea (Evolves)
open Effect

/-- A property of the values on operand stacks and one of classes and heap, kept by whatever code
can do to them. -/
structure Invariant (env : Environment) where
  Good : Value → Prop
  Holds : MethodArea → Heap → Prop
  good {v : Value} {k : Kind} (hv : v.kind? = some k) : Good v
  load {a : MethodArea} {h : Heap} (name : String) (hold : Holds a h) :
    Holds (env.loader.ensure name a).2 h
  start {a : MethodArea} {h : Heap} {c : Class} (ha : a.Linked) (hc : a.class? c.name = some c)
    (hold : Holds a h) : Holds (env.initStep c a).2 h
  allocate {a : MethodArea} {h : Heap} (c : Class) (hold : Holds a h) :
    Holds a (h.newInstance c).2
  newString {a : MethodArea} {h : Heap} (content : String) (hold : Holds a h) :
    Holds a (h.newString content).2
  field {a : MethodArea} {h : Heap} {r : Reference} {key : MemberRef} {v : Value}
    (hold : Holds a h) (hget : h.getField? r key = some v) : Good v
  putField {a : MethodArea} {h h' : Heap} {r : Reference} {key : MemberRef} {v : Value}
    (hold : Holds a h) (hv : Good v) (hkind : v.kind? = Kind.ofDescriptor? key.descriptor)
    (hset : h.setField? r key v = some h') : Holds a h'
  static {a : MethodArea} {h : Heap} {c : Class} {name descriptor : String} {v : Value}
    (hc : a.class? c.name = some c) (hold : Holds a h)
    (hget : a.static c name descriptor = .ok v) : Good v
  putStatic {a b : MethodArea} {h : Heap} {c : Class} {name descriptor : String} {v : Value}
    (hc : a.class? c.name = some c) (hold : Holds a h) (hv : Good v)
    (hkind : v.kind? = Kind.ofDescriptor? descriptor)
    (hset : a.setStatic c name descriptor v = .ok b) : Holds b h
  element {a : MethodArea} {h : Heap} {r : Reference} {array : ArrayObject} {v : Value}
    (hold : Holds a h) (hget : h.array? r = some array) (hv : v ∈ array.elements) : Good v

/-- A call that runs either a method body or a registered native. -/
def Invocation.Known (env : Environment) (i : Invocation) : Prop :=
  ∀ run method?, i.callee = .native run method? → ∃ r, env.natives.find? r = some run

/-- What an instruction that starts no class may ask for: no second try, and calls that are
known. -/
def Step.Plain (env : Environment) : Step → Prop
  | .invoke i retry => retry = false ∧ i.Known env
  | _ => True

/-- What any instruction may ask for: calls that are known. -/
def Step.Known (env : Environment) : Step → Prop
  | .invoke i _ => i.Known env
  | _ => True

theorem Step.Plain.known {env : Environment} {step : Step} (h : step.Plain env) :
    step.Known env := by
  cases step with
  | invoke i retry => exact h.2
  | _ => trivial

namespace Environment

variable {env : Environment}

theorem bind_known {cls : Class} {method : Method} {receiver : Option Value}
    {arguments : List Value} {parameters : List FieldType} {i : Invocation}
    (h : env.bind cls method receiver arguments parameters = .ok i) : i.Known env := by
  unfold bind at h
  dsimp only at h
  split at h
  · cases h
  · split at h
    · rename_i run hrun
      cases h
      intro run' method? hcallee
      cases hcallee
      exact ⟨_, hrun⟩
    · split at h
      · cases h
      · cases h
        intro run' method? hcallee
        cases hcallee

theorem initializer?_known {k : Class} {i : Invocation} (h : env.initializer? k = some i) :
    i.Known env := by
  simp only [initializer?, Option.map_eq_some_iff] at h
  obtain ⟨callee, hcallee, rfl⟩ := h
  intro run method? hnative
  obtain rfl : callee = .native run method? := hnative
  split at hcallee
  · rename_i run' hrun
    cases hcallee
    exact ⟨_, hrun⟩
  · obtain ⟨m, -, hbody⟩ := Option.map_eq_some_iff.mp hcallee
    cases hbody

end Environment

namespace Invariant

variable {env : Environment} (I : Invariant env)

/-! ### Frames -/

def Frame (f : Frame) : Prop := ∀ v ∈ f.stack, I.Good v

theorem pushed {f : Jvm.Frame} {v : Value} (hf : I.Frame f) (hv : I.Good v) :
    I.Frame (f.pushed v) := by
  intro u hu
  rcases List.mem_cons.mp hu with rfl | hu
  · exact hv
  · exact hf u hu

theorem received {f : Jvm.Frame} (hf : I.Frame f) (v : Value) : I.Frame (f.received v) := by
  unfold Frame.received
  split
  · rename_i hpresent
    cases v with
    | none => cases hpresent
    | _ => exact I.pushed hf (I.good rfl)
  · exact hf

theorem yields_pop : Yields I.Frame Frame.pop I.Good := by
  intro f hf
  unfold Frame.pop
  split
  · exact ⟨hf, of_error⟩
  · rename_i v rest hstack
    have hall : ∀ u ∈ v :: rest, I.Good u := hstack ▸ hf
    refine ⟨fun u hu => hall u (List.mem_cons_of_mem _ hu), fun u hu => ?_⟩
    cases hu
    exact hall v List.mem_cons_self

theorem yields_popKind (kind : Option Kind) :
    Yields I.Frame (Frame.popKind kind) fun v => I.Good v ∧ v.kind? = kind := by
  refine I.yields_pop.bind fun v hv => .ofExcept fun u hu => ?_
  unfold Value.expect at hu
  split at hu
  · rename_i hkind
    cases hu
    exact ⟨hv, hkind⟩
  · cases hu

theorem keeps_popInt : Keeps I.Frame Frame.popInt := by
  refine (I.yields_popKind _).keeps.bind fun v => ?_
  split <;> exact .pure trivial

theorem keeps_popLong : Keeps I.Frame Frame.popLong := by
  refine (I.yields_popKind _).keeps.bind fun v => ?_
  split <;> exact .pure trivial

theorem keeps_popReference : Keeps I.Frame Frame.popReference := by
  refine (I.yields_popKind _).keeps.bind fun v => ?_
  split <;> exact .pure trivial

theorem keeps_peek : Keeps I.Frame Frame.peek := by
  intro f hf
  unfold Frame.peek
  split <;> exact ⟨hf, fun _ _ => trivial⟩

theorem yields_getLocalKind (index : Int) (kind : Kind) :
    Yields I.Frame (Frame.getLocalKind index (some kind)) I.Good := by
  have hget : Keeps I.Frame (Frame.getLocal index) := by
    intro f hf
    unfold Frame.getLocal
    split
    · exact ⟨hf, fun _ _ => trivial⟩
    · split <;> exact ⟨hf, fun _ _ => trivial⟩
  refine hget.bind fun v => .ofExcept fun u hu => ?_
  unfold Value.expect at hu
  split at hu
  · rename_i hkind
    cases hu
    exact I.good hkind
  · cases hu

theorem yields_popWord : Yields I.Frame Exec.popWord I.Good := by
  refine I.yields_pop.bind fun v hv => ?_
  split
  · exact .fail _
  · exact .pure hv

theorem keeps_pushAll {vs : List Value} (hvs : ∀ v ∈ vs, I.Good v) :
    Keeps I.Frame (Exec.pushAll vs) := by
  induction vs with
  | nil => exact .pure trivial
  | cons v rest ih =>
    rw [List.forall_mem_cons] at hvs
    exact (Keeps.update fun f hf => I.pushed hf hvs.1).bind fun _ => ih hvs.2

theorem keeps_popOne : Keeps I.Frame Exec.popOne :=
  I.yields_popWord.keeps.bind fun _ => .pure trivial

theorem keeps_popTwo : Keeps I.Frame Exec.popTwo := by
  refine I.yields_pop.keeps.bind fun v => ?_
  split
  · exact .pure trivial
  · exact I.keeps_popOne

theorem keeps_duplicate : Keeps I.Frame Exec.duplicate :=
  I.yields_popWord.bind fun v hv => I.keeps_pushAll (by simp [hv])

theorem keeps_duplicateBelowOne : Keeps I.Frame Exec.duplicateBelowOne :=
  I.yields_popWord.bind fun v₁ h₁ => I.yields_popWord.bind fun v₂ h₂ =>
    I.keeps_pushAll (by simp [h₁, h₂])

theorem keeps_duplicateBelowTwo : Keeps I.Frame Exec.duplicateBelowTwo := by
  refine I.yields_popWord.bind fun v₁ h₁ => I.yields_pop.bind fun v₂ h₂ => ?_
  split
  · exact I.keeps_pushAll (by simp [h₁, h₂])
  · exact I.yields_popWord.bind fun v₃ h₃ => I.keeps_pushAll (by simp [h₁, h₂, h₃])

theorem keeps_exchange : Keeps I.Frame Exec.exchange :=
  I.yields_popWord.bind fun v₁ h₁ => I.yields_popWord.bind fun v₂ h₂ =>
    I.keeps_pushAll (by simp [h₁, h₂])

theorem keeps_popArgumentsFrom (types : List FieldType) (acc : List Value) :
    Keeps I.Frame (Exec.popArgumentsFrom types acc) := by
  induction types generalizing acc with
  | nil => exact .pure trivial
  | cons t rest ih => exact (I.yields_popKind _).keeps.bind fun v => ih (v :: acc)

/-! ### Scenes -/

/-- The classes have come about from `a`, and classes and heap are as they should be. -/
structure World (a : MethodArea) (w : World) : Prop where
  evolves : Evolves env a w.area
  holds : I.Holds w.area w.heap

structure Scene (a : MethodArea) (s : Scene) : Prop where
  frame : I.Frame s.frame
  world : I.World a s.world

variable {a : MethodArea} {α : Type} {P : α → Prop}

theorem yields_onFrame {m : Effect Jvm.Frame α} (h : Yields I.Frame m P) :
    Yields (I.Scene a) (onFrame m) P :=
  fun s hs => ⟨⟨(h s.frame hs.frame).1, hs.world⟩, (h s.frame hs.frame).2⟩

theorem yields_onWorld {m : Effect Jvm.World α} (h : Yields (I.World a) m P) :
    Yields (I.Scene a) (onWorld m) P :=
  fun s hs => ⟨⟨hs.frame, (h s.world hs.world).1⟩, (h s.world hs.world).2⟩

theorem preserves (a : MethodArea) (h : Heap) :
    env.loader.Preserves fun b => Evolves env a b ∧ I.Holds b h :=
  fun _ name hb => ⟨hb.1.step (.load name), I.load name hb.2⟩

theorem keeps_onArea {m : Effect MethodArea α}
    (h : ∀ heap, Keeps (fun b => Evolves env a b ∧ I.Holds b heap) m) :
    Keeps (I.Scene a) (onArea m) := by
  intro s hs
  obtain ⟨hevolves, hholds⟩ := (h s.world.heap s.world.area ⟨hs.world.evolves, hs.world.holds⟩).1
  exact ⟨⟨hs.frame, hevolves, hholds⟩, fun _ _ => trivial⟩

theorem keeps_ensure (name : String) : Keeps (I.Scene a) (onArea (env.loader.ensure name)) :=
  I.keeps_onArea fun h => (I.preserves a h).ensure name

theorem keeps_resolveInterfaceMethod (c : Class) (name descriptor : String) :
    Keeps (I.Scene a) (onArea (env.loader.resolveInterfaceMethod c name descriptor)) :=
  I.keeps_onArea fun h => (I.preserves a h).resolveInterfaceMethod c name descriptor

theorem keeps_pool : Keeps (I.Scene a) Exec.pool := fun _ hs => ⟨hs, fun _ _ => trivial⟩

theorem yields_heap : Yields (I.Scene a) Exec.heap fun h => ∃ b, I.Holds b h := by
  refine fun s hs => ⟨hs, fun h hh => ?_⟩
  cases hh
  exact ⟨_, hs.world.holds⟩

theorem yields_heap_bind {f : Heap → Exec α}
    (hf : ∀ s, I.Scene a s → I.Scene a (f s.world.heap s).2 ∧
      ∀ x, (f s.world.heap s).1 = .ok x → P x) : Yields (I.Scene a) (Exec.heap >>= f) P :=
  hf

/-! ### Instructions that work on their frame -/

theorem yields_pushNext {v : Value} (hv : I.Good v) :
    Yields (I.Scene a) (Exec.pushNext v) (Step.Plain env) :=
  Keeps.bind (I.yields_onFrame (Keeps.update fun _ hf => I.pushed hf hv)) fun _ => .pure trivial

theorem yields_rearrange {m : Effect Jvm.Frame Unit} (h : Keeps I.Frame m) :
    Yields (I.Scene a) (Exec.rearrange m) (Step.Plain env) :=
  Keeps.bind (I.yields_onFrame h) fun _ => .pure trivial

theorem keeps_intern (content : String) : Keeps (I.World a) (World.intern content) := by
  intro w hw
  refine ⟨?_, fun _ _ => trivial⟩
  rcases World.intern_cases content w with ⟨serial, -, heq⟩ | ⟨-, heq⟩
  · rwa [heq]
  · rw [heq]
    exact ⟨hw.evolves, I.newString content hw.holds⟩

theorem yields_loadConstant (index : UInt16) :
    Yields (I.Scene a) (Exec.loadConstant index) (Step.Plain env) := by
  refine I.keeps_pool.bind fun p => (Keeps.ofExcept _).bind fun c => ?_
  split
  · exact I.yields_pushNext (I.good rfl)
  · exact I.yields_pushNext (I.good rfl)
  · exact (Keeps.ofExcept _).bind fun content =>
      (I.yields_onWorld (I.keeps_intern content)).bind fun r _ => I.yields_pushNext (I.good rfl)
  · exact .fail _

theorem yields_loadWideConstant (index : UInt16) :
    Yields (I.Scene a) (Exec.loadWideConstant index) (Step.Plain env) := by
  refine I.keeps_pool.bind fun p => (Keeps.ofExcept _).bind fun c => ?_
  split
  · exact I.yields_pushNext (I.good rfl)
  · exact I.yields_pushNext (I.good rfl)
  · exact .fail _

theorem yields_loadLocal (kind : Kind) (index : UInt16) :
    Yields (I.Scene a) (Exec.loadLocal kind index) (Step.Plain env) :=
  (I.yields_onFrame (I.yields_getLocalKind _ kind)).bind fun _ hv => I.yields_pushNext hv

theorem keeps_store (depth index : Nat) (v : Value) :
    Keeps (I.Scene a) (Scene.store depth index v) := by
  intro s hs
  have hframe : ∀ f : Jvm.Frame, (Frame.setLocal index v f).2.stack = f.stack := by
    intro f
    unfold Frame.setLocal
    dsimp only
    generalize (if v.isWide then 2 else 1 : Nat) = width
    split <;> rfl
  have hkept : I.Frame (Frame.setLocal index v s.frame).2 := by
    intro u hu
    rw [hframe] at hu
    exact hs.frame u hu
  unfold Scene.store
  rcases hset : Frame.setLocal index v s.frame with ⟨f | _, frame⟩
  · rw [hset] at hkept
    exact ⟨⟨hkept, hs.world⟩, fun _ _ => trivial⟩
  · rw [hset] at hkept
    dsimp only
    split
    · exact ⟨⟨hkept, hs.world.evolves, hs.world.holds⟩, fun _ _ => trivial⟩
    · exact ⟨⟨hkept, hs.world⟩, fun _ _ => trivial⟩

theorem yields_storeLocal (depth : Nat) (kind : Kind) (index : UInt16) :
    Yields (I.Scene a) (Exec.storeLocal depth kind index) (Step.Plain env) :=
  (I.yields_onFrame (I.yields_popKind _)).keeps.bind fun v =>
    (I.keeps_store depth _ v).bind fun _ => .pure trivial

theorem yields_increment (depth : Nat) (index : UInt16) (amount : Int32) :
    Yields (I.Scene a) (Exec.increment depth index amount) (Step.Plain env) :=
  (I.yields_onFrame (I.yields_getLocalKind _ _)).keeps.bind fun _ =>
    (I.keeps_store depth _ _).bind fun _ => .pure trivial

theorem keeps_popInts : Keeps (I.Scene a) Exec.popInts :=
  Keeps.bind (I.yields_onFrame I.keeps_popInt) fun _ =>
    Keeps.bind (I.yields_onFrame I.keeps_popInt) fun _ => .pure trivial

theorem keeps_popLongs : Keeps (I.Scene a) Exec.popLongs :=
  Keeps.bind (I.yields_onFrame I.keeps_popLong) fun _ =>
    Keeps.bind (I.yields_onFrame I.keeps_popLong) fun _ => .pure trivial

theorem yields_intBinary (op : IntOp) :
    Yields (I.Scene a) (Exec.intBinary op) (Step.Plain env) :=
  I.keeps_popInts.bind fun _ => (Keeps.ofExcept _).bind fun _ => I.yields_pushNext (I.good rfl)

theorem yields_longBinary (op : LongOp) :
    Yields (I.Scene a) (Exec.longBinary op) (Step.Plain env) :=
  I.keeps_popLongs.bind fun _ => (Keeps.ofExcept _).bind fun _ => I.yields_pushNext (I.good rfl)

theorem yields_intUnary {f : Int32 → Value} {k : Kind} (hf : ∀ n, (f n).kind? = some k) :
    Yields (I.Scene a) (Exec.intUnary f) (Step.Plain env) :=
  Keeps.bind (I.yields_onFrame I.keeps_popInt) fun n => I.yields_pushNext (I.good (hf n))

theorem yields_longUnary {f : Int64 → Value} {k : Kind} (hf : ∀ n, (f n).kind? = some k) :
    Yields (I.Scene a) (Exec.longUnary f) (Step.Plain env) :=
  Keeps.bind (I.yields_onFrame I.keeps_popLong) fun n => I.yields_pushNext (I.good (hf n))

theorem yields_longCompare : Yields (I.Scene a) Exec.longCompare (Step.Plain env) :=
  I.keeps_popLongs.bind fun _ => I.yields_pushNext (I.good rfl)

theorem plain_branch (taken : Bool) (i : Instruction) :
    Step.Plain env (Exec.branch taken i) := by
  unfold Exec.branch
  split <;> trivial

theorem yields_ifInt (c : Comparison) (i : Instruction) :
    Yields (I.Scene a) (Exec.ifInt c i) (Step.Plain env) :=
  Keeps.bind (I.yields_onFrame I.keeps_popInt) fun _ => .pure (plain_branch _ i)

theorem yields_ifInts (c : Comparison) (i : Instruction) :
    Yields (I.Scene a) (Exec.ifInts c i) (Step.Plain env) :=
  I.keeps_popInts.bind fun _ => .pure (plain_branch _ i)

theorem yields_ifReferences (equal : Bool) (i : Instruction) :
    Yields (I.Scene a) (Exec.ifReferences equal i) (Step.Plain env) :=
  Keeps.bind (I.yields_onFrame I.keeps_popReference) fun _ =>
    Keeps.bind (I.yields_onFrame I.keeps_popReference) fun _ => .pure (plain_branch _ i)

theorem yields_ifNull (null : Bool) (i : Instruction) :
    Yields (I.Scene a) (Exec.ifNull null i) (Step.Plain env) :=
  Keeps.bind (I.yields_onFrame I.keeps_popReference) fun _ => .pure (plain_branch _ i)

theorem yields_valueReturn (kind : Kind) :
    Yields (I.Scene a) (Exec.valueReturn kind) (Step.Plain env) :=
  (I.yields_onFrame (I.yields_popKind _)).keeps.bind fun _ => .pure trivial

/-! ### Calls -/

theorem keeps_popArguments (descriptor : String) :
    Keeps (I.Scene a) (Exec.popArguments descriptor) :=
  (Keeps.ofExcept _).bind fun _ =>
    Keeps.bind (I.yields_onFrame (I.keeps_popArgumentsFrom _ _)) fun _ => .pure trivial

theorem keeps_popReceiver (r : MemberRef) : Keeps (I.Scene a) (Exec.popReceiver r) := by
  refine Keeps.bind (I.yields_onFrame I.keeps_popReference) fun target => ?_
  split
  · exact .pure trivial
  · exact .fail _

theorem yields_nativeCall? (r : MemberRef) (hasReceiver : Bool) :
    Yields (I.Scene a) (Exec.nativeCall? env r hasReceiver) fun step? =>
      (∀ step, step? = some step → step.Plain env) ∧
        (step? = none → env.natives.find? r = none) := by
  unfold Exec.nativeCall?
  split
  · rename_i hnone
    exact .pure ⟨fun _ h => (nomatch h), fun _ => hnone⟩
  · rename_i run hrun
    refine (I.keeps_popArguments _).bind fun ⟨arguments, parameters⟩ => ?_
    have hreceiver : Keeps (I.Scene a) (some <$> Exec.popReceiver r) := by
      rw [map_eq_pure_bind]
      exact (I.keeps_popReceiver r).bind fun _ => .pure trivial
    refine Yields.ite_bind hreceiver (.pure trivial) fun receiver _ => ?_
    refine .pure ⟨fun step hstep => ?_, fun h => nomatch h⟩
    cases hstep
    refine ⟨rfl, fun run' method? hcallee => ?_⟩
    cases hcallee
    exact ⟨r, hrun⟩

theorem yields_ensureOrNative (r : MemberRef) {m : Class → Exec Step}
    (hm : ∀ c, Yields (I.Scene a) (m c) (Step.Plain env)) :
    Yields (I.Scene a) (Exec.ensureOrNative env r m) (Step.Plain env) := by
  intro s hs
  have hload := (I.keeps_ensure r.className s hs).1
  unfold Exec.ensureOrNative
  rcases hensure : onArea (env.loader.ensure r.className) s with ⟨f | c, t⟩
  · rw [hensure] at hload
    dsimp only
    split
    · have hnative := I.yields_nativeCall? r true t hload
      rcases hcall : Exec.nativeCall? env r true t with ⟨g | _ | step, u⟩
      · rw [hcall] at hnative
        exact ⟨hnative.1, of_error⟩
      · rw [hcall] at hnative
        exact ⟨hnative.1, of_error⟩
      · rw [hcall] at hnative
        refine ⟨hnative.1, fun step' h => ?_⟩
        cases h
        exact (hnative.2 _ rfl).1 _ rfl
    · exact ⟨hload, of_error⟩
  · rw [hensure] at hload
    exact hm c t hload

theorem yields_call (cls : Class) (method : Method) (receiver : Option Reference)
    (arguments : List Value) (parameters : List FieldType) :
    Yields (I.Scene a) (Exec.call env cls method receiver arguments parameters)
      (Step.Plain env) :=
  Yields.bind (.ofExcept fun _ h => Environment.bind_known h) fun _ hi => .pure ⟨rfl, hi⟩

theorem keeps_classOf (r : Reference) : Keeps (I.Scene a) (Exec.classOf env r) := by
  refine I.yields_heap.keeps.bind fun h => ?_
  split
  · split
    · exact .pure trivial
    · exact .fail _
  · exact I.keeps_ensure _
  · exact I.keeps_ensure _

theorem keeps_resolveSpecial (c : Class) (r : MemberRef) (isInterface : Bool) :
    Keeps (I.Scene a) (Exec.resolveSpecial env c r isInterface) := by
  unfold Exec.resolveSpecial
  split
  · exact .pure trivial
  · split
    · exact I.keeps_resolveInterfaceMethod _ _ _
    · exact .fail _

theorem yields_invokeSpecial (index : UInt16) :
    Yields (I.Scene a) (Exec.invokeSpecial env index) (Step.Plain env) := by
  refine I.keeps_pool.bind fun p => (Keeps.ofExcept _).bind fun ⟨r, isInterface⟩ => ?_
  dsimp only
  have hcall : Yields (I.Scene a) (Exec.nativeCall? env r true) fun step? =>
      ∀ step, step? = some step → step.Plain env :=
    (I.yields_nativeCall? r true).mono fun _ h => h.1
  refine Yields.ite_bind hcall (.pure fun _ h => nomatch h) fun intrinsic hplain => ?_
  split
  · exact .pure (hplain _ rfl)
  · refine (I.keeps_ensure _).bind fun c => Keeps.read.bind fun s => ?_
    refine (I.keeps_resolveSpecial _ _ _).bind fun ⟨decl, m⟩ => ?_
    dsimp only
    split
    · exact .fail _
    · split
      · exact .fail _
      · exact (I.keeps_popArguments _).bind fun _ => (I.keeps_popReceiver r).bind fun _ =>
          I.yields_call _ _ _ _ _

theorem yields_invokeVirtual (index : UInt16) :
    Yields (I.Scene a) (Exec.invokeVirtual env index) (Step.Plain env) := by
  refine I.keeps_pool.bind fun p => (Keeps.ofExcept _).bind fun r => ?_
  refine I.yields_ensureOrNative r fun c => ?_
  refine (I.keeps_resolveInterfaceMethod _ _ _).bind fun ⟨decl, m⟩ => ?_
  dsimp only
  split
  · exact .fail _
  · refine (I.keeps_popArguments _).bind fun ⟨arguments, parameters⟩ => ?_
    refine (I.keeps_popReceiver r).bind fun receiver => ?_
    dsimp only
    split
    · exact I.yields_call _ _ _ _ _
    · refine (I.keeps_classOf receiver).bind fun rc => ?_
      exact (I.keeps_resolveInterfaceMethod _ _ _).bind fun _ => I.yields_call _ _ _ _ _

theorem yields_invokeInterface (index : UInt16) :
    Yields (I.Scene a) (Exec.invokeInterface env index) (Step.Plain env) := by
  refine I.keeps_pool.bind fun p => (Keeps.ofExcept _).bind fun r => ?_
  refine I.yields_ensureOrNative r fun c => ?_
  split
  · exact .fail _
  · refine (I.keeps_resolveInterfaceMethod _ _ _).bind fun _ => ?_
    refine (I.keeps_popArguments _).bind fun ⟨arguments, parameters⟩ => ?_
    refine (I.keeps_popReceiver r).bind fun receiver => (I.keeps_classOf receiver).bind fun rc => ?_
    refine (I.keeps_resolveInterfaceMethod _ _ _).bind fun ⟨decl, m⟩ => ?_
    dsimp only
    split
    · exact .fail _
    · exact I.yields_call _ _ _ _ _

/-! ### Fields and arrays -/

theorem keeps_resolveField (index : UInt16) (static : Bool) :
    Keeps (I.Scene a) (Exec.resolveField env index static) := by
  refine I.keeps_pool.bind fun p => (Keeps.ofExcept _).bind fun r => ?_
  refine (I.keeps_ensure _).bind fun c => ?_
  have hfield : Keeps (I.Scene a) (onArea (env.loader.resolveField c r.name r.descriptor)) :=
    I.keeps_onArea fun h => (I.preserves a h).resolveField _ _ _
  refine hfield.bind fun ⟨decl, f⟩ => ?_
  dsimp only
  split
  · exact .pure trivial
  · exact .fail _

theorem keeps_popInstance (r : MemberRef) : Keeps (I.Scene a) (Exec.popInstance r) := by
  refine Keeps.bind (I.yields_onFrame I.keeps_popReference) fun target => ?_
  split
  · exact .fail _
  · refine I.yields_heap.keeps.bind fun h => ?_
    split
    · exact .pure trivial
    · exact .fail _

theorem yields_getField (index : UInt16) :
    Yields (I.Scene a) (Exec.getField env index) (Step.Plain env) := by
  refine (I.keeps_resolveField index false).bind fun ⟨decl, r⟩ => ?_
  refine (I.keeps_popInstance r).bind fun ⟨target, i⟩ => ?_
  refine I.yields_heap.bind fun h ⟨b, hholds⟩ => ?_
  split
  · rename_i v hget
    exact I.yields_pushNext (I.field hholds hget)
  · exact .fail _

theorem yields_putField (index : UInt16) :
    Yields (I.Scene a) (Exec.putField env index) (Step.Plain env) := by
  refine (I.keeps_resolveField index false).bind fun ⟨decl, r⟩ => ?_
  refine (I.yields_onFrame (I.yields_popKind _)).bind fun v ⟨hgood, hkind⟩ => ?_
  refine (I.keeps_popInstance r).bind fun ⟨target, i⟩ => ?_
  refine I.yields_heap_bind fun s hs => ?_
  cases hset : s.world.heap.setField? target ⟨decl.name, r.name, r.descriptor⟩ v with
  | none => exact ⟨hs, of_error⟩
  | some changed =>
    refine ⟨⟨hs.frame, hs.world.evolves, ?_⟩, fun step h => ?_⟩
    · exact I.putField hs.world.holds hgood (by exact hkind) hset
    · cases h
      trivial

theorem keeps_isInstance (r : Reference) (target : String) :
    Keeps (I.Scene a) (Exec.isInstance env r target) := by
  refine I.yields_heap.keeps.bind fun h => ?_
  split
  · exact .pure trivial
  · split
    · split
      · exact I.keeps_onArea fun h => (I.preserves a h).isAssignable _ _
      · exact .pure trivial
    · split
      · exact .pure trivial
      · split <;> exact .pure trivial
    · exact .pure trivial

theorem yields_checkCast (index : UInt16) :
    Yields (I.Scene a) (Exec.checkCast env index) (Step.Plain env) := by
  refine I.keeps_pool.bind fun p => (Keeps.ofExcept _).bind fun target => ?_
  refine Keeps.bind (I.yields_onFrame I.keeps_peek) fun v => (Keeps.ofExcept _).bind fun u => ?_
  split
  · refine (I.keeps_isInstance _ _).bind fun isInstance => ?_
    split
    · exact .pure trivial
    · exact I.yields_heap.keeps.bind fun h => .fail _
  · exact .pure trivial

theorem yields_popArray :
    Yields (I.Scene a) Exec.popArray fun array => ∀ v ∈ array.elements, I.Good v := by
  refine Keeps.bind (I.yields_onFrame I.keeps_popReference) fun r => ?_
  split
  · exact .fail _
  · refine I.yields_heap.bind fun h ⟨b, hholds⟩ => ?_
    split
    · rename_i array hget
      exact .pure fun v hv => I.element hholds hget hv
    · exact .fail _

theorem yields_arrayLength : Yields (I.Scene a) Exec.arrayLength (Step.Plain env) :=
  I.yields_popArray.keeps.bind fun _ => I.yields_pushNext (I.good rfl)

theorem yields_loadElement : Yields (I.Scene a) Exec.loadElement (Step.Plain env) := by
  refine Keeps.bind (I.yields_onFrame I.keeps_popInt) fun index => ?_
  refine I.yields_popArray.bind fun array harray => ?_
  split
  · exact .fail _
  · split
    · rename_i v hget
      refine I.yields_pushNext (harray v ?_)
      split at hget
      · cases hget
      · exact List.mem_of_getElem? hget
    · exact .fail _

/-! ### The instruction set -/

/-- A static call of a reference for which a native is registered calls the native. -/
theorem invokeStatic_plain {index : UInt16} {s : Jvm.Scene} (hs : I.Scene a s)
    (hnative : ClassUse.hasNative env s.frame.pool index = true) :
    I.Scene a (Exec.invokeStatic env index s).2 ∧
      ∀ step, (Exec.invokeStatic env index s).1 = .ok step → step.Plain env := by
  rw [Exec.invokeStatic, ClassUse.pool_bind]
  rw [ClassUse.hasNative] at hnative
  rcases href : s.frame.pool.anyMethodref index with f | ⟨r, isInterface⟩
  · exact ⟨hs, of_error⟩
  · refine (I.yields_nativeCall? r false).bind (fun step? hcall => ?_) s hs
    obtain ⟨hplain, hnone⟩ := hcall
    cases step? with
    | some step => exact .pure (hplain step rfl)
    | none =>
      rw [href] at hnative
      simp [hnone rfl] at hnative

theorem execute_plain {i : Instruction} {s : Jvm.Scene} (hs : I.Scene a s)
    (hi : ClassUse.find? env s.frame.pool i = none) (depth : Nat) :
    I.Scene a (env.execute depth i s).2 ∧
      ∀ step, (env.execute depth i s).1 = .ok step → step.Plain env := by
  rw [Environment.execute]
  unfold ClassUse.find? at hi
  cases hop : i.opcode with
  | nop => exact Yields.pure trivial s hs
  | aconstNull | iconst | lconst | fconst | dconst | bipush | sipush =>
    exact I.yields_pushNext (I.good rfl) s hs
  | ldc | ldcW => exact I.yields_loadConstant _ s hs
  | ldc2W => exact I.yields_loadWideConstant _ s hs
  | load | loadFrom => exact I.yields_loadLocal _ _ s hs
  | aaload => exact I.yields_loadElement s hs
  | store | storeTo => exact I.yields_storeLocal _ _ _ s hs
  | pop => exact I.yields_rearrange I.keeps_popOne s hs
  | pop2 => exact I.yields_rearrange I.keeps_popTwo s hs
  | dup => exact I.yields_rearrange I.keeps_duplicate s hs
  | dupX1 => exact I.yields_rearrange I.keeps_duplicateBelowOne s hs
  | dupX2 => exact I.yields_rearrange I.keeps_duplicateBelowTwo s hs
  | swap => exact I.yields_rearrange I.keeps_exchange s hs
  | intBinary op => exact I.yields_intBinary op s hs
  | longBinary op => exact I.yields_longBinary op s hs
  | ineg | i2l | i2b | i2c | i2s => exact I.yields_intUnary (fun _ => rfl) s hs
  | lneg | l2i => exact I.yields_longUnary (fun _ => rfl) s hs
  | iinc => exact I.yields_increment _ _ _ s hs
  | lcmp => exact I.yields_longCompare s hs
  | ifInt c => exact I.yields_ifInt c i s hs
  | ifIntCompare c => exact I.yields_ifInts c i s hs
  | ifReferenceCompare equal => exact I.yields_ifReferences equal i s hs
  | ifNull null => exact I.yields_ifNull null i s hs
  | goto | voidReturn => exact Yields.pure trivial s hs
  | valueReturn kind => exact I.yields_valueReturn kind s hs
  | getfield => exact I.yields_getField _ s hs
  | putfield => exact I.yields_putField _ s hs
  | invokevirtual => exact I.yields_invokeVirtual _ s hs
  | invokespecial => exact I.yields_invokeSpecial _ s hs
  | invokeinterface => exact I.yields_invokeInterface _ s hs
  | arraylength => exact I.yields_arrayLength s hs
  | checkcast => exact I.yields_checkCast _ s hs
  | getstatic | putstatic | new =>
    rw [hop] at hi
    cases hi
  | invokestatic =>
    rw [hop] at hi
    refine I.invokeStatic_plain hs ?_
    simpa using hi

theorem perform_plain {x : ClassUse} {s : Jvm.Scene} (hs : I.Scene a s)
    (hx : s.world.area.class? x.subject.name = some x.subject) :
    I.Scene a (x.perform env s).2 ∧
      ∀ step, (x.perform env s).1 = .ok step → step.Plain env := by
  cases x with
  | read decl r =>
    have hget : Yields (I.Scene a)
        (Effect.ofExcept (s.world.area.static decl r.name r.descriptor)) I.Good :=
      .ofExcept fun v hv => I.static hx hs.world.holds hv
    exact hget.bind (fun v hv => I.yields_pushNext hv) s hs
  | write decl r =>
    have hpop := I.yields_popKind (Kind.ofDescriptor? r.descriptor) s.frame hs.frame
    simp only [ClassUse.perform, Effect.bind_apply, onFrame, Effect.zoom]
    rcases hpopped : Frame.popKind (Kind.ofDescriptor? r.descriptor) s.frame with ⟨f | v, frame⟩
    · rw [hpopped] at hpop
      exact ⟨⟨hpop.1, hs.world⟩, of_error⟩
    · rw [hpopped] at hpop
      obtain ⟨hgood, hkind⟩ := hpop.2 v rfl
      simp only [Effect.read, Effect.ofExcept]
      cases hset : s.world.area.setStatic decl r.name r.descriptor v with
      | error f => exact ⟨⟨hpop.1, hs.world⟩, of_error⟩
      | ok b =>
        refine ⟨⟨hpop.1, hs.world.evolves.step (.write hset), ?_⟩, fun step h => ?_⟩
        · exact I.putStatic hx hs.world.holds hgood hkind hset
        · cases h
          trivial
  | allocate c =>
    have hnew : Keeps (I.World a) (World.newInstance c) :=
      fun w hw => ⟨⟨hw.evolves, I.allocate c hw.holds⟩, fun _ _ => trivial⟩
    exact Keeps.bind (I.yields_onWorld hnew) (fun _ => I.yields_pushNext (I.good rfl)) s hs
  | bind decl m r =>
    exact (I.keeps_popArguments _).bind (fun _ => I.yields_call _ _ _ _ _) s hs

section

variable {i : Instruction} {s : Jvm.Scene} {find : Effect MethodArea ClassUse} {x : ClassUse}
  {b : MethodArea}

theorem find_scene {r : Except Fault ClassUse} (hs : I.Scene a s)
    (hi : ClassUse.find? env s.frame.pool i = some find) (hfind : find s.world.area = (r, b)) :
    I.Scene a (s.withArea b) := by
  have hkept := I.keeps_onArea fun h => ClassUse.keeps_of_find? hi (I.preserves a h)
  exact hkept.apply hs (onArea_of_eq hfind)

theorem claim_scene (ha : a.Linked) (hs : I.Scene a s)
    (hi : ClassUse.find? env s.frame.pool i = some find)
    (hfind : find s.world.area = (.ok x, b)) :
    b.Linked ∧ b.class? x.subject.name = some x.subject ∧
      I.Scene a (s.withArea (env.initStep x.subject b).2) := by
  have hfound := I.find_scene hs hi hfind
  have hb : b.Linked := hfound.world.evolves.linked ha
  have hx := ClassUse.class?_of_find? hi (hs.world.evolves.linked ha) hfind
  exact ⟨hb, hx, hfound.frame, hfound.world.evolves.step (.start hx),
    I.start hb hx hfound.world.holds⟩

theorem performed_plain {b' : MethodArea} (ha : a.Linked) (hs : I.Scene a s)
    (hi : ClassUse.find? env s.frame.pool i = some find)
    (hfind : find s.world.area = (.ok x, b))
    (hdone : env.initStep x.subject b = (.ok none, b')) :
    I.Scene a (x.perform env (s.withArea b')).2 ∧
      ∀ step, (x.perform env (s.withArea b')).1 = .ok step → step.Plain env := by
  obtain ⟨hb, hx, hclaimed⟩ := I.claim_scene ha hs hi hfind
  have hop : MethodArea.Operation env b (env.initStep x.subject b).2 := .start hx
  have hx' := hop.class? hb hx
  rw [hdone] at hclaimed hx'
  exact I.perform_plain hclaimed hx'

theorem outcome_known {result : Except Fault Step × Jvm.Scene} (ha : a.Linked) (hs : I.Scene a s)
    (hi : ClassUse.find? env s.frame.pool i = some find)
    (h : ClassUse.Outcome env find s result) :
    I.Scene a result.2 ∧ ∀ step, result.1 = .ok step → step.Known env := by
  cases h with
  | unresolved hfind hstatics => exact ⟨I.find_scene hs hi hfind, of_error⟩
  | pending hfind hnext hstatics =>
    obtain ⟨hb, hx, hclaimed⟩ := I.claim_scene ha hs hi hfind
    obtain ⟨k, -, -, -, hk⟩ := env.initStep_some hb hx hnext
    rw [hnext] at hclaimed
    refine ⟨hclaimed, fun step h => ?_⟩
    cases h
    exact Environment.initializer?_known hk
  | performed hfind hdone hstatics hstarted =>
    obtain ⟨hkept, hplain⟩ := I.performed_plain ha hs hi hfind hdone
    exact ⟨hkept, fun step h => (hplain step h).known⟩

end

/-- Every instruction keeps an invariant, whether it succeeds or fails. -/
theorem execute_known {depth : Nat} {i : Instruction} {s t : Jvm.Scene} {r : Except Fault Step}
    (ha : a.Linked) (hs : I.Scene a s) (h : env.execute depth i s = (r, t)) :
    I.Scene a t ∧ ∀ step, r = .ok step → step.Known env := by
  cases hi : ClassUse.find? env s.frame.pool i with
  | none =>
    obtain ⟨hkept, hplain⟩ := I.execute_plain hs hi depth
    rw [h] at hkept hplain
    exact ⟨hkept, fun step hstep => (hplain step hstep).known⟩
  | some find =>
    have houtcome := ClassUse.execute_outcome hi (hs.world.evolves.linked ha) depth
    rw [h] at houtcome
    exact I.outcome_known ha hs hi houtcome

end Invariant

end Jvm
