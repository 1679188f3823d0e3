import Jvm.Proofs.Machine.Contents

/-!
# What instructions leave alone

A frame keeps its class and its method, whatever its instructions do. An instruction that needs no
started class changes the classes by loading and in no other way, and instances keep their classes.
-/

namespace Jvm

open Scene (onFrame onWorld onArea)
open Effect

/-! ### The method of a frame -/

def Frame.owner (f : Frame) : Class × Method := (f.cls, f.method)

@[simp] theorem Frame.owner_received (f : Frame) (v : Value) : (f.received v).owner = f.owner := by
  unfold Frame.received
  split <;> rfl

theorem Frame.owner_make {cls : Class} {method : Method} {receiver : Option Value}
    {parameters : List FieldType} {arguments : List Value} {serial : Nat} {observed : Bool}
    {f : Frame} (h : make cls method receiver parameters arguments serial observed = .ok f) :
    f.owner = (cls, method) := by
  obtain ⟨code, slots, -, -, -, -, rfl⟩ := make_eq_ok h
  rfl

theorem Environment.owner_execute (env : Environment) (depth : Nat) (i : Instruction) (s : Scene) :
    (env.execute depth i s).2.frame.owner = s.frame.owner := by
  have hkept : Exec.Kept depth fun t => t.frame.owner = s.frame.owner := by
    refine ⟨fun _ ht => ht, fun _ ht => ht, fun _ _ ht => ht, fun _ ht => ht, fun index v ht => ?_⟩
    rw [Scene.store_eq]
    split <;> exact ht
  exact hkept.execute env i rfl

/-! ### Instructions that only load -/

def Heap.classes (h : Heap) : Array Class := h.instances.map Instance.cls

theorem Heap.classes_setField? {h h' : Heap} {r : Reference} {key : MemberRef} {v : Value}
    (hset : h.setField? r key v = some h') : h'.classes = h.classes := by
  cases r with
  | object n =>
    simp only [Heap.setField?, Option.bind_eq_bind, Option.bind_eq_some_iff] at hset
    obtain ⟨i, hi, slot, -, hset⟩ := hset
    cases hset
    obtain ⟨hn, rfl⟩ := Array.getElem?_eq_some_iff.mp hi
    refine Array.ext (by simp [Heap.classes]) fun m hm _ => ?_
    simp only [Heap.classes, Array.getElem_map]
    rw [Array.getElem_setIfInBounds]
    split
    · rename_i heq
      subst heq
      rfl
    · rfl
  | array n | string content origin => cases hset

/-- What an instruction that is no call may ask for. -/
def Step.Callless : Step → Prop
  | .invoke _ _ => False
  | _ => True

/-- The classes satisfy `I`, and the instances are of the classes `cs`. -/
structure Scene.Loading (I : MethodArea → Prop) (cs : Array Class) (s : Scene) : Prop where
  area : I s.world.area
  classes : s.world.heap.classes = cs

namespace Scene.Loading

variable {env : Environment} {I : MethodArea → Prop} {cs : Array Class} {α : Type}

theorem keeps_onFrame (m : Effect Frame α) : Keeps (Scene.Loading I cs) (onFrame m) :=
  fun _ hs => ⟨⟨hs.area, hs.classes⟩, fun _ _ => True.intro⟩

theorem keeps_onArea {m : Effect MethodArea α} (h : Keeps I m) :
    Keeps (Scene.Loading I cs) (onArea m) :=
  fun s hs => ⟨⟨(h s.world.area hs.area).1, hs.classes⟩, fun _ _ => True.intro⟩

theorem keeps_pool : Keeps (Scene.Loading I cs) Exec.pool := fun _ hs => ⟨hs, fun _ _ => True.intro⟩

theorem keeps_heap : Keeps (Scene.Loading I cs) Exec.heap := fun _ hs => ⟨hs, fun _ _ => True.intro⟩

theorem keeps_store (depth index : Nat) (v : Value) :
    Keeps (Scene.Loading I cs) (Scene.store depth index v) := by
  intro s hs
  rw [Scene.store_eq]
  split
  · exact ⟨hs, of_error⟩
  · exact ⟨⟨hs.area, hs.classes⟩, fun _ _ => True.intro⟩

theorem keeps_intern (content : String) :
    Keeps (Scene.Loading I cs) (onWorld (World.intern content)) := by
  intro s hs
  obtain ⟨serial, -, hsame | hnew⟩ := Scene.onWorld_intern content s
  · rw [hsame]
    exact ⟨hs, fun _ _ => True.intro⟩
  · rw [hnew]
    exact ⟨⟨hs.area, hs.classes⟩, fun _ _ => True.intro⟩

/-! ### Instructions that work on their frame -/

theorem yields_pushNext (v : Value) :
    Yields (Scene.Loading I cs) (Exec.pushNext v) Step.Callless :=
  (keeps_onFrame _).bind fun _ => .pure True.intro

theorem yields_loadConstant (index : UInt16) :
    Yields (Scene.Loading I cs) (Exec.loadConstant index) Step.Callless := by
  refine keeps_pool.bind fun p => (Keeps.ofExcept _).bind fun c => ?_
  split
  · exact yields_pushNext _
  · exact yields_pushNext _
  · exact (Keeps.ofExcept _).bind fun _ => (keeps_intern _).bind fun _ => yields_pushNext _
  · exact .fail _

theorem yields_loadWideConstant (index : UInt16) :
    Yields (Scene.Loading I cs) (Exec.loadWideConstant index) Step.Callless := by
  refine keeps_pool.bind fun p => (Keeps.ofExcept _).bind fun c => ?_
  split
  · exact yields_pushNext _
  · exact yields_pushNext _
  · exact .fail _

theorem yields_storeLocal (depth : Nat) (kind : Kind) (index : UInt16) :
    Yields (Scene.Loading I cs) (Exec.storeLocal depth kind index) Step.Callless :=
  (keeps_onFrame _).bind fun _ => (keeps_store _ _ _).bind fun _ => .pure True.intro

theorem yields_increment (depth : Nat) (index : UInt16) (amount : Int32) :
    Yields (Scene.Loading I cs) (Exec.increment depth index amount) Step.Callless :=
  (keeps_onFrame _).bind fun _ => (keeps_store _ _ _).bind fun _ => .pure True.intro

theorem keeps_onFrame_pure {β : Type} (m : Effect Frame α) (f : α → β) :
    Keeps (Scene.Loading I cs) (onFrame m >>= fun a => pure (f a)) :=
  (keeps_onFrame m).bind fun _ => .pure True.intro

theorem yields_onFrame_step (m : Effect Frame α) {f : α → Step} (hf : ∀ a, (f a).Callless) :
    Yields (Scene.Loading I cs) (onFrame m >>= fun a => pure (f a)) Step.Callless :=
  (keeps_onFrame m).bind fun a => .pure (hf a)

theorem callless_branch (taken : Bool) (i : Instruction) : (Exec.branch taken i).Callless := by
  unfold Exec.branch
  split <;> exact True.intro

theorem keeps_popInts : Keeps (Scene.Loading I cs) Exec.popInts :=
  (keeps_onFrame _).bind fun _ => keeps_onFrame_pure _ _

theorem keeps_popLongs : Keeps (Scene.Loading I cs) Exec.popLongs :=
  (keeps_onFrame _).bind fun _ => keeps_onFrame_pure _ _

theorem yields_onFrame_push (m : Effect Frame α) (f : α → Value) :
    Yields (Scene.Loading I cs) (onFrame m >>= fun a => Exec.pushNext (f a)) Step.Callless :=
  (keeps_onFrame m).bind fun _ => yields_pushNext _

theorem yields_intBinary (op : IntOp) :
    Yields (Scene.Loading I cs) (Exec.intBinary op) Step.Callless :=
  keeps_popInts.bind fun _ => (Keeps.ofExcept _).bind fun _ => yields_pushNext _

theorem yields_longBinary (op : LongOp) :
    Yields (Scene.Loading I cs) (Exec.longBinary op) Step.Callless :=
  keeps_popLongs.bind fun _ => (Keeps.ofExcept _).bind fun _ => yields_pushNext _

/-! ### Calls -/

theorem keeps_popArguments (descriptor : String) :
    Keeps (Scene.Loading I cs) (Exec.popArguments descriptor) :=
  (Keeps.ofExcept _).bind fun _ => keeps_onFrame_pure _ _

theorem keeps_popReceiver (r : MemberRef) : Keeps (Scene.Loading I cs) (Exec.popReceiver r) := by
  refine (keeps_onFrame _).bind fun target => ?_
  split
  · exact .pure True.intro
  · exact .fail _

theorem yields_nativeCall? (r : MemberRef) (hasReceiver : Bool) :
    Yields (Scene.Loading I cs) (Exec.nativeCall? env r hasReceiver) fun step? =>
      step? = none → env.natives.find? r = none := by
  unfold Exec.nativeCall?
  split
  · rename_i hnone
    exact .pure fun _ => hnone
  · refine (keeps_popArguments _).bind fun ⟨arguments, parameters⟩ => ?_
    have hreceiver : Keeps (Scene.Loading I cs) (some <$> Exec.popReceiver r) := by
      rw [map_eq_pure_bind]
      exact (keeps_popReceiver r).bind fun _ => .pure True.intro
    refine Yields.ite_bind hreceiver (.pure True.intro) fun receiver _ => ?_
    exact .pure fun h => by cases h

theorem keeps_call (cls : Class) (method : Method) (receiver : Option Reference)
    (arguments : List Value) (parameters : List FieldType) :
    Keeps (Scene.Loading I cs) (Exec.call env cls method receiver arguments parameters) :=
  (Keeps.ofExcept _).bind fun _ => .pure True.intro

section

variable (hI : env.loader.Preserves I)

include hI

theorem keeps_ensure (name : String) :
    Keeps (Scene.Loading I cs) (onArea (env.loader.ensure name)) :=
  keeps_onArea (hI.ensure name)

theorem keeps_resolveInterfaceMethod (c : Class) (name descriptor : String) :
    Keeps (Scene.Loading I cs) (onArea (env.loader.resolveInterfaceMethod c name descriptor)) :=
  keeps_onArea (hI.resolveInterfaceMethod c name descriptor)

theorem keeps_ensureOrNative (r : MemberRef) {m : Class → Exec Step}
    (hm : ∀ c, Keeps (Scene.Loading I cs) (m c)) :
    Keeps (Scene.Loading I cs) (Exec.ensureOrNative env r m) := by
  intro s hs
  have hload := (keeps_ensure hI r.className s hs).1
  unfold Exec.ensureOrNative
  rcases hensure : onArea (env.loader.ensure r.className) s with ⟨f | c, t⟩
  · rw [hensure] at hload
    dsimp only
    split
    · have hnative : Scene.Loading I cs (Exec.nativeCall? env r true t).2 :=
        (yields_nativeCall? r true t hload).1
      rcases hcall : Exec.nativeCall? env r true t with ⟨g | _ | step, u⟩ <;>
      · rw [hcall] at hnative
        exact ⟨hnative, fun _ _ => True.intro⟩
    · exact ⟨hload, of_error⟩
  · rw [hensure] at hload
    exact hm c t hload

theorem keeps_classOf (r : Reference) : Keeps (Scene.Loading I cs) (Exec.classOf env r) := by
  refine keeps_heap.bind fun h => ?_
  split
  · split
    · exact .pure True.intro
    · exact .fail _
  · exact keeps_ensure hI _
  · exact keeps_ensure hI _

theorem keeps_resolveSpecial (c : Class) (r : MemberRef) (isInterface : Bool) :
    Keeps (Scene.Loading I cs) (Exec.resolveSpecial env c r isInterface) := by
  unfold Exec.resolveSpecial
  split
  · exact .pure True.intro
  · split
    · exact keeps_resolveInterfaceMethod hI _ _ _
    · exact .fail _

theorem keeps_invokeSpecial (index : UInt16) :
    Keeps (Scene.Loading I cs) (Exec.invokeSpecial env index) := by
  refine keeps_pool.bind fun p => (Keeps.ofExcept _).bind fun ⟨r, isInterface⟩ => ?_
  refine Yields.ite_bind (yields_nativeCall? r true).keeps (.pure True.intro) fun intrinsic _ => ?_
  dsimp only
  split
  · exact .pure True.intro
  · refine (keeps_ensure hI _).bind fun c => Keeps.read.bind fun s => ?_
    refine (keeps_resolveSpecial hI _ _ _).bind fun ⟨decl, m⟩ => ?_
    dsimp only
    split
    · exact .fail _
    · split
      · exact .fail _
      · exact (keeps_popArguments _).bind fun _ => (keeps_popReceiver r).bind fun _ =>
          keeps_call _ _ _ _ _

theorem keeps_invokeVirtual (index : UInt16) :
    Keeps (Scene.Loading I cs) (Exec.invokeVirtual env index) := by
  refine keeps_pool.bind fun p => (Keeps.ofExcept _).bind fun r => ?_
  refine keeps_ensureOrNative hI r fun c => ?_
  refine (keeps_resolveInterfaceMethod hI _ _ _).bind fun ⟨decl, m⟩ => ?_
  dsimp only
  split
  · exact .fail _
  · refine (keeps_popArguments _).bind fun ⟨arguments, parameters⟩ => ?_
    refine (keeps_popReceiver r).bind fun receiver => ?_
    dsimp only
    split
    · exact keeps_call _ _ _ _ _
    · refine (keeps_classOf hI receiver).bind fun rc => ?_
      exact (keeps_resolveInterfaceMethod hI _ _ _).bind fun _ => keeps_call _ _ _ _ _

theorem keeps_invokeInterface (index : UInt16) :
    Keeps (Scene.Loading I cs) (Exec.invokeInterface env index) := by
  refine keeps_pool.bind fun p => (Keeps.ofExcept _).bind fun r => ?_
  refine keeps_ensureOrNative hI r fun c => ?_
  split
  · exact .fail _
  · refine (keeps_resolveInterfaceMethod hI _ _ _).bind fun _ => ?_
    refine (keeps_popArguments _).bind fun ⟨arguments, parameters⟩ => ?_
    refine (keeps_popReceiver r).bind fun receiver => (keeps_classOf hI receiver).bind fun rc => ?_
    refine (keeps_resolveInterfaceMethod hI _ _ _).bind fun ⟨decl, m⟩ => ?_
    dsimp only
    split
    · exact .fail _
    · exact keeps_call _ _ _ _ _

omit hI in
theorem keeps_invokeStatic {index : UInt16} {s : Scene}
    (hnative : ClassUse.hasNative env s.frame.pool index = true) (hs : s.Loading I cs) :
    (Exec.invokeStatic env index s).2.Loading I cs := by
  rw [Exec.invokeStatic, ClassUse.pool_bind]
  rw [ClassUse.hasNative] at hnative
  rcases href : s.frame.pool.anyMethodref index with f | ⟨r, isInterface⟩
  · exact hs
  · refine (Yields.bind (Q := fun _ => True) (yields_nativeCall? r false)
      (fun step? hcall => ?_) s hs).1
    cases step? with
    | some step => exact .pure True.intro
    | none =>
      rw [href] at hnative
      simp [hcall rfl] at hnative

/-! ### Fields and arrays -/

theorem keeps_resolveField (index : UInt16) (static : Bool) :
    Keeps (Scene.Loading I cs) (Exec.resolveField env index static) := by
  refine keeps_pool.bind fun p => (Keeps.ofExcept _).bind fun r => ?_
  refine (keeps_ensure hI _).bind fun c => ?_
  refine (keeps_onArea (hI.resolveField c r.name r.descriptor)).bind fun ⟨decl, f⟩ => ?_
  dsimp only
  split
  · exact .pure True.intro
  · exact .fail _

omit hI in
theorem keeps_popInstance (r : MemberRef) : Keeps (Scene.Loading I cs) (Exec.popInstance r) := by
  refine (keeps_onFrame _).bind fun target => ?_
  split
  · exact .fail _
  · refine keeps_heap.bind fun h => ?_
    split
    · exact .pure True.intro
    · exact .fail _

theorem yields_getField (index : UInt16) :
    Yields (Scene.Loading I cs) (Exec.getField env index) Step.Callless := by
  refine (keeps_resolveField hI index false).bind fun ⟨decl, r⟩ => ?_
  refine (keeps_popInstance r).bind fun ⟨target, i⟩ => keeps_heap.bind fun h => ?_
  split
  · exact yields_pushNext _
  · exact .fail _

theorem yields_putField (index : UInt16) :
    Yields (Scene.Loading I cs) (Exec.putField env index) Step.Callless := by
  refine (keeps_resolveField hI index false).bind fun ⟨decl, r⟩ => ?_
  refine (keeps_onFrame _).bind fun v => (keeps_popInstance r).bind fun ⟨target, i⟩ => ?_
  -- The heap that is changed is the one that was read.
  intro s hs
  have hread : ∀ f : Heap → Exec Step, (Exec.heap >>= f) s = f s.world.heap s := fun _ => rfl
  dsimp only
  rw [hread]
  cases hset : s.world.heap.setField? target ⟨decl.name, r.name, r.descriptor⟩ v with
  | none => exact ⟨hs, of_error⟩
  | some changed =>
    have hclasses : changed.classes = cs := (Heap.classes_setField? hset).trans hs.classes
    refine ⟨⟨hs.area, hclasses⟩, fun step hstep => ?_⟩
    cases hstep
    exact True.intro

theorem keeps_isInstance (r : Reference) (target : String) :
    Keeps (Scene.Loading I cs) (Exec.isInstance env r target) := by
  refine keeps_heap.bind fun h => ?_
  split
  · exact .pure True.intro
  · split
    · split
      · exact keeps_onArea (hI.isAssignable _ _)
      · exact .pure True.intro
    · split
      · exact .pure True.intro
      · split <;> exact .pure True.intro
    · exact .pure True.intro

theorem yields_checkCast (index : UInt16) :
    Yields (Scene.Loading I cs) (Exec.checkCast env index) Step.Callless := by
  refine keeps_pool.bind fun p => (Keeps.ofExcept _).bind fun target => ?_
  refine (keeps_onFrame _).bind fun v => (Keeps.ofExcept _).bind fun u => ?_
  split
  · refine (keeps_isInstance hI _ _).bind fun isInstance => ?_
    split
    · exact .pure True.intro
    · exact keeps_heap.bind fun h => .fail _
  · exact .pure True.intro

omit hI in
theorem keeps_popArray : Keeps (Scene.Loading I cs) Exec.popArray := by
  refine (keeps_onFrame _).bind fun r => ?_
  split
  · exact .fail _
  · refine keeps_heap.bind fun h => ?_
    split
    · exact .pure True.intro
    · exact .fail _

omit hI in
theorem yields_loadElement : Yields (Scene.Loading I cs) Exec.loadElement Step.Callless := by
  refine (keeps_onFrame _).bind fun index => keeps_popArray.bind fun array => ?_
  split
  · exact .fail _
  · split
    · exact yields_pushNext _
    · exact .fail _

end

end Scene.Loading

open Scene.Loading in
/-- An instruction that needs no started class keeps what loading keeps, and the classes of all
instances. It asks for a call only if it is a call. -/
theorem Environment.execute_loads {env : Environment} {I : MethodArea → Prop} {i : Instruction}
    {s : Scene} (hI : env.loader.Preserves I) (hi : ClassUse.find? env s.frame.pool i = none)
    (hs : I s.world.area) (depth : Nat) :
    Scene.Loading I s.world.heap.classes (env.execute depth i s).2 ∧
      (i.opcode ∈ Opcode.calls ∨
        ∀ step, (env.execute depth i s).1 = .ok step → step.Callless) := by
  have hnow : s.Loading I s.world.heap.classes := ⟨hs, rfl⟩
  have hplain : ∀ {m : Exec Step} {op : Opcode},
      Yields (Scene.Loading I s.world.heap.classes) m Step.Callless →
      Scene.Loading I s.world.heap.classes (m s).2 ∧
        (op ∈ Opcode.calls ∨ ∀ step, (m s).1 = .ok step → step.Callless) :=
    fun hm => ⟨(hm s hnow).1, .inr (hm s hnow).2⟩
  rw [Environment.execute]
  unfold ClassUse.find? at hi
  cases hop : i.opcode with
  | nop | goto | voidReturn => exact hplain (.pure True.intro)
  | aconstNull | iconst | lconst | fconst | dconst | bipush | sipush =>
    exact hplain (yields_pushNext _)
  | ldc | ldcW => exact hplain (yields_loadConstant _)
  | ldc2W => exact hplain (yields_loadWideConstant _)
  | load | loadFrom => exact hplain (yields_onFrame_push _ _)
  | aaload => exact hplain yields_loadElement
  | store | storeTo => exact hplain (yields_storeLocal _ _ _)
  | pop | pop2 | dup | dupX1 | dupX2 | swap =>
    exact hplain (yields_onFrame_step _ fun _ => True.intro)
  | intBinary op => exact hplain (yields_intBinary op)
  | longBinary op => exact hplain (yields_longBinary op)
  | ineg | i2l | i2b | i2c | i2s | lneg | l2i => exact hplain (yields_onFrame_push _ _)
  | iinc => exact hplain (yields_increment _ _ _)
  | lcmp => exact hplain (keeps_popLongs.bind fun _ => yields_pushNext _)
  | ifInt | ifNull => exact hplain (yields_onFrame_step _ fun _ => callless_branch _ _)
  | valueReturn => exact hplain (yields_onFrame_step _ fun _ => True.intro)
  | ifIntCompare =>
    exact hplain (keeps_popInts.bind fun _ => .pure (callless_branch _ _))
  | ifReferenceCompare =>
    exact hplain ((keeps_onFrame _).bind fun _ =>
      yields_onFrame_step _ fun _ => callless_branch _ _)
  | getfield => exact hplain (yields_getField hI _)
  | putfield => exact hplain (yields_putField hI _)
  | arraylength => exact hplain (keeps_popArray.bind fun _ => yields_pushNext _)
  | checkcast => exact hplain (yields_checkCast hI _)
  | invokevirtual => exact ⟨(keeps_invokeVirtual hI _ s hnow).1, .inl (by decide)⟩
  | invokespecial => exact ⟨(keeps_invokeSpecial hI _ s hnow).1, .inl (by decide)⟩
  | invokeinterface => exact ⟨(keeps_invokeInterface hI _ s hnow).1, .inl (by decide)⟩
  | getstatic | putstatic | new =>
    rw [hop] at hi
    cases hi
  | invokestatic =>
    -- A native is registered for the reference, and it is called right away.
    have hnative : ClassUse.hasNative env s.frame.pool i.index = true := by
      rw [hop] at hi
      simpa using hi
    exact ⟨keeps_invokeStatic hnative hnow, .inl (by decide)⟩

end Jvm
