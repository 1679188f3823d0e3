import Jvm.Proofs.Faults
import Jvm.Proofs.Machine.CallOperands
import Jvm.Proofs.Machine.Invariance

/-!
# What instructions are made of

Every instruction is put together from the same few parts: it takes values off its stack and puts
values on it, reads and stores locals, looks at the heap, reads and stores fields, and has classes
loaded and started. `Composed` is the record of such a composition. What is true of the parts and is
handed on by sequences is true of every instruction, by induction on the record. An instruction that
allocates does so at the very end.
-/

namespace Jvm

open Scene (onFrame onWorld onArea)

/-! ### Resolution fails with its own faults and those of loading -/

namespace Loader

variable {F : Fault → Prop} {l : Loader} (hF : Fault.Family [.resolution] F)
  (hload : ∀ name, (l.ensure name).Raises F)

include hload

theorem raises_ensureAll (names : List String) : (l.ensureAll names).Raises F := by
  induction names with
  | nil => exact .pure []
  | cons name rest ih => exact (hload name).bind fun c => ih.bind fun cs => .pure (c :: cs)

theorem raises_searchInterfaces {α : Type}
    {search : Class → List String → Effect MethodArea (Search α)}
    (hsearch : ∀ c visited, (search c visited).Raises F) (names visited : List String) :
    (l.searchInterfaces search names visited).Raises F := by
  induction names generalizing visited with
  | nil => exact .pure _
  | cons name rest ih =>
    refine (hload name).bind fun i => (hsearch i visited).bind fun r => ?_
    obtain ⟨_ | found, visited'⟩ := r
    · exact ih visited'
    · exact .pure _

include hF

theorem raises_resolveInterfaceMethod (c : Class) (name descriptor : String) :
    (l.resolveInterfaceMethod c name descriptor).Raises F := by
  unfold Loader.resolveInterfaceMethod
  split
  · exact .pure _
  · refine (raises_ensureAll hload _).bind fun interfaces => ?_
    dsimp only
    split
    · exact .fail (hF.of _ (by decide) (by decide))
    · exact .pure _
    · exact .fail (hF.of _ (by decide) (by decide))

theorem raises_searchField (name descriptor : String) (fuel : Nat) (c : Class)
    (visited : List String) : (l.searchField name descriptor fuel c visited).Raises F := by
  induction fuel generalizing c visited with
  | zero => exact .fail (hF.of _ (by decide) (by decide))
  | succ fuel ih =>
    rw [Loader.searchField]
    split
    · exact .pure _
    · split
      · exact .pure _
      · refine (raises_searchInterfaces hload ih _ _).bind fun result => ?_
        obtain ⟨found, visited'⟩ := result
        dsimp only
        split
        · exact .pure _
        · exact ih _ _
        · exact .pure _

theorem raises_resolveField (c : Class) (name descriptor : String) :
    (l.resolveField c name descriptor).Raises F := by
  refine Effect.Raises.read.bind fun a => ?_
  refine (raises_searchField hF hload name descriptor _ c []).bind fun ⟨found, visited⟩ => ?_
  cases found with
  | none => exact .fail (hF.of _ (by decide) (by decide))
  | some r => exact .pure r

theorem raises_searchSupertype (target : String) (fuel : Nat) (c : Class)
    (visited : List String) : (l.searchSupertype target fuel c visited).Raises F := by
  induction fuel generalizing c visited with
  | zero => exact .fail (hF.of _ (by decide) (by decide))
  | succ fuel ih =>
    rw [Loader.searchSupertype]
    -- Each class of the lineage spends its fuel on the interfaces it names.
    generalize c.lineage = classes
    induction classes generalizing visited with
    | nil => exact .pure _
    | cons k rest ihrest =>
      rw [Loader.searchLineage]
      split
      · exact .pure _
      · split
        · exact ihrest visited
        · refine (raises_searchInterfaces hload ih _ _).bind fun result => ?_
          obtain ⟨found, visited'⟩ := result
          cases found with
          | none => exact ihrest visited'
          | some _ => exact .pure _

theorem raises_isAssignable (c : Class) (target : String) :
    (l.isAssignable c target).Raises F := by
  refine Effect.Raises.read.bind fun a => ?_
  exact (raises_searchSupertype hF hload target _ c []).bind fun _ => .pure _

end Loader

/-! ### The parts -/

/-- Loading and starting classes keep `I`. -/
structure Environment.Stable (env : Environment) (I : MethodArea → Prop) : Prop where
  load : env.loader.Preserves I
  start : ∀ c a, I a → I (env.initStep c a).2

theorem Environment.Stable.trivial (env : Environment) : env.Stable fun _ => True :=
  ⟨fun _ _ h => h, fun _ _ h => h⟩

/-- A value that does not point into the heap. -/
def Value.Unboxed : Value → Prop
  | .reference (.object _) | .reference (.array _) => False
  | _ => True

/-- A value that an instruction can make by itself: of the references only those to string objects
that are made while the machine runs. -/
def Value.Plain : Value → Prop
  | .reference (.string _ (.fresh _)) => True
  | .reference _ => False
  | _ => True

theorem Value.Plain.unboxed {v : Value} (h : v.Plain) : v.Unboxed := by
  unfold Unboxed
  split
  · exact h
  · exact h
  · trivial

/-- All fields of instances and all elements of arrays satisfy `G`. -/
structure Heap.All (G : Value → Prop) (h : Heap) : Prop where
  fields : ∀ i ∈ h.instances, ∀ v ∈ i.fields, G v
  elements : ∀ array ∈ h.arrays, ∀ v ∈ array.elements, G v

/-- A call that is known and whose receiver and arguments satisfy `G`. -/
structure Invocation.Sound (env : Environment) (G : Value → Prop) (i : Invocation) : Prop where
  known : i.Known env
  arguments : ∀ v ∈ i.nativeArguments, G v

/-- A step whose values satisfy `G`. -/
def Step.Sound (env : Environment) (G : Value → Prop) : Step → Prop
  | .invoke i _ => i.Sound env G
  | .return_ v => G v
  | _ => True

namespace Exec

def currentClass : Exec Class := fun s => (.ok s.frame.cls, s)

def readStatic (c : Class) (r : MemberRef) : Exec Value := fun s =>
  (s.world.area.static c r.name r.descriptor, s)

def writeStatic (c : Class) (r : MemberRef) (v : Value) : Exec Step := fun s =>
  match s.world.area.setStatic c r.name r.descriptor v with
  | .ok area => (.ok .next, s.withArea area)
  | .error f => (.error f, s)

def writeField (target : Reference) (key : MemberRef) (v : Value) (f : Fault) : Exec Step :=
  fun s =>
    match s.world.heap.setField? target key v with
    | some heap => (.ok .next, { s with world := { s.world with heap } })
    | none => (.error f, s)

/-- Goes on with what came of a computation on the method area, or with its failure. -/
def recover {α β : Type} (e : Effect MethodArea α) (k : α → Exec β) (g : Fault → Exec β) :
    Exec β := fun s =>
  match onArea e s with
  | (.ok a, s) => k a s
  | (.error f, s) => g f s

/-- Ends an instruction: with a step, or by allocating an instance. -/
def conclude : Step ⊕ Class → Exec Step
  | .inl step => return step
  | .inr c => do
    let r ← onWorld (World.newInstance c)
    pushNext (.reference r)

/-- The computations that consist of the parts of instructions: they fail with faults in `F`, put
into frames, classes and heap only values in `G`, as they find only such values there, and answer
with something that satisfies `P`. -/
inductive Composed (env : Environment) (depth : Nat) (F : Fault → Prop) (G : Value → Prop) :
    {α : Type} → Exec α → (α → Prop) → Prop where
  | pure {α : Type} {P : α → Prop} {a : α} (h : P a) : Composed env depth F G (pure a) P
  | ofExcept {α : Type} {P : α → Prop} {e : Except Fault α} (hok : ∀ a, e = .ok a → P a)
    (hraises : Raises F e) : Composed env depth F G (Effect.ofExcept e) P
  | bind {α β : Type} {P : α → Prop} {Q : β → Prop} {m : Exec α} {k : α → Exec β}
    (hm : Composed env depth F G m P) (hk : ∀ a, P a → Composed env depth F G (k a) Q) :
    Composed env depth F G (m >>= k) Q
  | recover {α β : Type} {P : α → Prop} {Q : β → Prop} {e : Effect MethodArea α}
    {k : α → Exec β} {g : Fault → Exec β} (hraises : e.Raises F)
    (hyields : ∀ I, env.Stable I → Effect.Yields I e P)
    (hk : ∀ a, P a → Composed env depth F G (k a) Q)
    (hg : ∀ f, F f → Composed env depth F G (g f) Q) :
    Composed env depth F G (recover e k g) Q
  | pool : Composed env depth F G pool fun _ => True
  | currentClass : Composed env depth F G currentClass fun _ => True
  | heap : Composed env depth F G heap (Heap.All G)
  | pop : Composed env depth F G (onFrame Frame.pop) G
  | peek : Composed env depth F G (onFrame Frame.peek) G
  | push {v : Value} (hv : G v) : Composed env depth F G (push v) fun _ => True
  | intern (content : String)
    (hstrings : ∀ serial, G (.reference (.string content (.fresh serial)))) :
    Composed env depth F G (onWorld (World.intern content)) fun r => G (.reference r)
  | getLocal (index : Int) : Composed env depth F G (onFrame (Frame.getLocal index)) G
  | store (index : Nat) {v : Value} (hv : G v) :
    Composed env depth F G (Scene.store depth index v) fun _ => True
  | readStatic (c : Class) (r : MemberRef) : Composed env depth F G (readStatic c r) G
  | writeStatic (c : Class) (r : MemberRef) {v : Value} (hv : G v) :
    Composed env depth F G (writeStatic c r v) (Step.Sound env G)
  | writeField (target : Reference) (key : MemberRef) {v : Value} (hv : G v) {f : Fault}
    (hf : F f) : Composed env depth F G (writeField target key v f) (Step.Sound env G)
  | mono {α : Type} {P Q : α → Prop} {m : Exec α} (h : Composed env depth F G m P)
    (hPQ : ∀ a, P a → Q a) : Composed env depth F G m Q

/-! ### The instruction set is composed -/

/-- The classes of failure of an instruction, other than those of finding and calling it. -/
def kinds : List FaultKind := [.format, .index, .typeMismatch, .resolution, .arithmetic]

/-- The faults and values that a record can speak of: the faults cover those of the parts and of
loading, the values all that instructions make by themselves. -/
structure Terms (env : Environment) (F : Fault → Prop) (G : Value → Prop) : Prop where
  faults : Fault.Family kinds F
  load : ∀ name, (env.loader.ensure name).Raises F
  plain : ∀ v : Value, v.Plain → G v

theorem Terms.trivial (env : Environment) : Terms env (fun _ => True) fun _ => True where
  faults := ⟨fun _ _ => True.intro, fun _ _ _ => True.intro⟩
  load _ _ _ _ := True.intro
  plain _ _ := True.intro

namespace Composed

variable {env : Environment} {depth : Nat} {F : Fault → Prop} {G : Value → Prop} {α β : Type}
  {P : α → Prop} {Q : β → Prop}

theorem fail {f : Fault} (hf : F f) : Composed env depth F G (Effect.fail f : Exec α) P :=
  ofExcept (e := .error f) (fun _ h => nomatch h) (.error hf)

theorem attempt {e : Except Fault α} (h : Raises F e) :
    Composed env depth F G (Effect.ofExcept e : Exec α) fun _ => True :=
  ofExcept (fun _ _ => trivial) h

theorem andThen {m : Exec α} {k : α → Exec β} (hm : Composed env depth F G m P)
    (hk : ∀ a, Composed env depth F G (k a) Q) : Composed env depth F G (m >>= k) Q :=
  hm.bind fun a _ => hk a

theorem ite_bind {c : Prop} [Decidable c] {m₁ m₂ : Exec α} {k : α → Exec β}
    (h₁ : Composed env depth F G m₁ P) (h₂ : Composed env depth F G m₂ P)
    (hk : ∀ a, P a → Composed env depth F G (k a) Q) :
    Composed env depth F G (if c then m₁ >>= k else m₂ >>= k) Q := by
  split
  · exact h₁.bind hk
  · exact h₂.bind hk

theorem onArea {e : Effect MethodArea α} (hraises : e.Raises F)
    (hyields : ∀ I, env.Stable I → Effect.Yields I e P) :
    Composed env depth F G (onArea e) P := by
  have heq : Scene.onArea e = Exec.recover e Pure.pure Effect.fail := by
    funext s
    unfold Exec.recover
    split <;> rename_i hresult <;> exact hresult
  rw [heq]
  exact recover hraises hyields (fun _ ha => pure ha) fun _ hf => fail hf

theorem onFrame_bind {m : Effect Frame α} {k : α → Effect Frame β}
    (hm : Composed env depth F G (onFrame m) P)
    (hk : ∀ a, P a → Composed env depth F G (onFrame (k a)) Q) :
    Composed env depth F G (onFrame (m >>= k)) Q := by
  have heq : onFrame (m >>= k) = onFrame m >>= fun a => onFrame (k a) := by
    funext s
    simp only [onFrame, Effect.zoom, Effect.bind_apply]
    rcases m s.frame with ⟨f | a, t⟩ <;> rfl
  rw [heq]
  exact hm.bind hk

end Composed

section

variable {env : Environment} {depth : Nat} {F : Fault → Prop} {G : Value → Prop}

theorem Terms.lookups (T : Terms env F G) : Fault.Family [.index, .typeMismatch] F :=
  T.faults.mono (by decide)

theorem Terms.resolution (T : Terms env F G) : Fault.Family [.resolution] F :=
  T.faults.mono (by decide)

theorem Terms.raises_expect (T : Terms env F G) (v : Value) (kind : Option Kind) :
    Raises F (v.expect kind) := by
  unfold Value.expect
  split
  · exact .ok v
  · exact .error (T.faults.of _ (by decide) (by decide))

variable (T : Terms env F G)

include T

/-! #### Stack and constants -/

theorem composed_popKind (kind : Option Kind) :
    Composed env depth F G (onFrame (Frame.popKind kind)) fun v => G v ∧ v.kind? = kind := by
  refine Composed.pop.onFrame_bind fun v hv => .ofExcept (fun u hu => ?_) (T.raises_expect v kind)
  obtain ⟨rfl, hkind⟩ := Value.expect_eq_ok hu
  exact ⟨hv, hkind⟩

theorem composed_popInt : Composed env depth F G (onFrame Frame.popInt) fun _ => True := by
  refine (composed_popKind T _).onFrame_bind fun v _ => ?_
  split <;> exact .pure trivial

theorem composed_popLong : Composed env depth F G (onFrame Frame.popLong) fun _ => True := by
  refine (composed_popKind T _).onFrame_bind fun v _ => ?_
  split <;> exact .pure trivial

theorem composed_popReference :
    Composed env depth F G (onFrame Frame.popReference) fun target =>
      ∀ r, target = some r → G (.reference r) := by
  refine (composed_popKind T _).onFrame_bind fun v hv => ?_
  split
  · rename_i r
    refine .pure fun r' hr' => ?_
    cases hr'
    exact hv.1
  · exact .pure fun r hr => nomatch hr

theorem composed_getLocalKind (index : Int) (kind : Option Kind) :
    Composed env depth F G (onFrame (Frame.getLocalKind index kind)) G := by
  refine (Composed.getLocal index).onFrame_bind fun v hv => ?_
  refine .ofExcept (fun u hu => ?_) (T.raises_expect v kind)
  obtain ⟨rfl, -⟩ := Value.expect_eq_ok hu
  exact hv

theorem composed_popWord : Composed env depth F G (onFrame popWord) G := by
  refine Composed.pop.onFrame_bind fun v hv => ?_
  split
  · exact .fail (T.faults.of _ (by decide) (by decide))
  · exact .pure hv

omit T in
theorem composed_pushAll {vs : List Value} (hvs : ∀ v ∈ vs, G v) :
    Composed env depth F G (onFrame (pushAll vs)) fun _ => True := by
  induction vs with
  | nil => exact .pure trivial
  | cons v rest ih =>
    rw [List.forall_mem_cons] at hvs
    exact (Composed.push hvs.1).onFrame_bind fun _ _ => ih hvs.2

theorem composed_popOne : Composed env depth F G (onFrame popOne) fun _ => True :=
  (composed_popWord T).onFrame_bind fun _ _ => .pure trivial

theorem composed_popTwo : Composed env depth F G (onFrame popTwo) fun _ => True := by
  refine Composed.pop.onFrame_bind fun v _ => ?_
  split
  · exact .pure trivial
  · exact composed_popOne T

theorem composed_duplicate : Composed env depth F G (onFrame duplicate) fun _ => True :=
  (composed_popWord T).onFrame_bind fun v hv => composed_pushAll (by simp [hv])

theorem composed_duplicateBelowOne :
    Composed env depth F G (onFrame duplicateBelowOne) fun _ => True :=
  (composed_popWord T).onFrame_bind fun v₁ h₁ => (composed_popWord T).onFrame_bind fun v₂ h₂ =>
    composed_pushAll (by simp [h₁, h₂])

theorem composed_duplicateBelowTwo :
    Composed env depth F G (onFrame duplicateBelowTwo) fun _ => True := by
  refine (composed_popWord T).onFrame_bind fun v₁ h₁ => Composed.pop.onFrame_bind fun v₂ h₂ => ?_
  split
  · exact composed_pushAll (by simp [h₁, h₂])
  · refine (composed_popWord T).onFrame_bind fun v₃ h₃ => ?_
    exact composed_pushAll (by simp [h₁, h₂, h₃])

theorem composed_exchange : Composed env depth F G (onFrame exchange) fun _ => True :=
  (composed_popWord T).onFrame_bind fun v₁ h₁ => (composed_popWord T).onFrame_bind fun v₂ h₂ =>
    composed_pushAll (by simp [h₁, h₂])

omit T in
theorem composed_rearrange {m : Effect Frame Unit}
    (h : Composed env depth F G (onFrame m) fun _ => True) :
    Composed env depth F G (rearrange m) (Step.Sound env G) :=
  h.andThen fun _ => .pure trivial

omit T in
theorem composed_pushNext {v : Value} (hv : G v) :
    Composed env depth F G (pushNext v) (Step.Sound env G) :=
  (Composed.push hv).andThen fun _ => .pure trivial

theorem composed_loadConstant (index : UInt16) :
    Composed env depth F G (loadConstant index) (Step.Sound env G) := by
  refine Composed.pool.andThen fun p => ?_
  refine (Composed.attempt (p.raises_entry T.lookups index)).andThen fun c => ?_
  split
  · exact composed_pushNext (T.plain _ trivial)
  · exact composed_pushNext (T.plain _ trivial)
  · refine (Composed.attempt (p.raises_utf8 T.lookups _)).andThen fun content => ?_
    exact (Composed.intern content fun _ => T.plain _ trivial).bind fun r hr => composed_pushNext hr
  · exact .fail (T.faults.of _ (by decide) (by decide))

theorem composed_loadWideConstant (index : UInt16) :
    Composed env depth F G (loadWideConstant index) (Step.Sound env G) := by
  refine Composed.pool.andThen fun p => ?_
  refine (Composed.attempt (p.raises_entry T.lookups index)).andThen fun c => ?_
  split
  · exact composed_pushNext (T.plain _ trivial)
  · exact composed_pushNext (T.plain _ trivial)
  · exact .fail (T.faults.of _ (by decide) (by decide))

theorem composed_loadLocal (kind : Kind) (index : UInt16) :
    Composed env depth F G (loadLocal kind index) (Step.Sound env G) :=
  (composed_getLocalKind T _ _).bind fun _ hv => composed_pushNext hv

theorem composed_storeLocal (kind : Kind) (index : UInt16) :
    Composed env depth F G (storeLocal depth kind index) (Step.Sound env G) :=
  (composed_popKind T _).bind fun _ hv => (Composed.store _ hv.1).andThen fun _ => .pure trivial

theorem composed_increment (index : UInt16) (amount : Int32) :
    Composed env depth F G (increment depth index amount) (Step.Sound env G) :=
  (composed_getLocalKind T _ _).andThen fun _ =>
    (Composed.store _ (T.plain (.int _) trivial)).andThen fun _ => .pure trivial

/-! #### Arithmetic and branches -/

theorem composed_popInts : Composed env depth F G popInts fun _ => True :=
  (composed_popInt T).andThen fun _ => (composed_popInt T).andThen fun _ => .pure trivial

theorem composed_popLongs : Composed env depth F G popLongs fun _ => True :=
  (composed_popLong T).andThen fun _ => (composed_popLong T).andThen fun _ => .pure trivial

theorem Terms.raises_intOp (op : IntOp) (a b : Int32) : Raises F (op.apply a b) := by
  cases op with
  | div | rem =>
    simp only [IntOp.apply]
    split
    · exact .error (T.faults.of _ (by decide) (by decide))
    · exact .ok _
  | _ => exact .ok _

theorem Terms.raises_longOp (op : LongOp) (a b : Int64) : Raises F (op.apply a b) := by
  cases op with
  | div | rem =>
    simp only [LongOp.apply]
    split
    · exact .error (T.faults.of _ (by decide) (by decide))
    · exact .ok _
  | _ => exact .ok _

theorem composed_intBinary (op : IntOp) :
    Composed env depth F G (intBinary op) (Step.Sound env G) := by
  refine (composed_popInts T).andThen fun ⟨a, b⟩ => ?_
  refine (Composed.attempt (T.raises_intOp op a b)).andThen fun _ => ?_
  exact composed_pushNext (T.plain _ trivial)

theorem composed_longBinary (op : LongOp) :
    Composed env depth F G (longBinary op) (Step.Sound env G) := by
  refine (composed_popLongs T).andThen fun ⟨a, b⟩ => ?_
  refine (Composed.attempt (T.raises_longOp op a b)).andThen fun _ => ?_
  exact composed_pushNext (T.plain _ trivial)

theorem composed_intUnary {f : Int32 → Value} (hf : ∀ a, (f a).Plain) :
    Composed env depth F G (intUnary f) (Step.Sound env G) :=
  (composed_popInt T).andThen fun a => composed_pushNext (T.plain _ (hf a))

theorem composed_longUnary {f : Int64 → Value} (hf : ∀ a, (f a).Plain) :
    Composed env depth F G (longUnary f) (Step.Sound env G) :=
  (composed_popLong T).andThen fun a => composed_pushNext (T.plain _ (hf a))

theorem composed_longCompare : Composed env depth F G longCompare (Step.Sound env G) :=
  (composed_popLongs T).andThen fun _ => composed_pushNext (T.plain _ trivial)

omit T in
theorem sound_branch (taken : Bool) (i : Instruction) : (branch taken i).Sound env G := by
  unfold branch
  split <;> trivial

theorem composed_ifInt (c : Comparison) (i : Instruction) :
    Composed env depth F G (ifInt c i) (Step.Sound env G) :=
  (composed_popInt T).andThen fun _ => .pure (sound_branch _ _)

theorem composed_ifInts (c : Comparison) (i : Instruction) :
    Composed env depth F G (ifInts c i) (Step.Sound env G) :=
  (composed_popInts T).andThen fun _ => .pure (sound_branch _ _)

theorem composed_ifReferences (equal : Bool) (i : Instruction) :
    Composed env depth F G (ifReferences equal i) (Step.Sound env G) :=
  (composed_popReference T).andThen fun _ => (composed_popReference T).andThen fun _ =>
    .pure (sound_branch _ _)

theorem composed_ifNull (null : Bool) (i : Instruction) :
    Composed env depth F G (ifNull null i) (Step.Sound env G) :=
  (composed_popReference T).andThen fun _ => .pure (sound_branch _ _)

theorem composed_valueReturn (kind : Kind) :
    Composed env depth F G (valueReturn kind) (Step.Sound env G) :=
  (composed_popKind T _).bind fun _ hv => .pure hv.1

/-! #### Calls -/

theorem composed_popArgumentsFrom (types : List FieldType) {acc : List Value}
    (hacc : ∀ v ∈ acc, G v) :
    Composed env depth F G (onFrame (popArgumentsFrom types acc)) fun vs => ∀ v ∈ vs, G v := by
  induction types generalizing acc with
  | nil => exact .pure hacc
  | cons t rest ih =>
    refine (composed_popKind T _).onFrame_bind fun v hv => ih ?_
    exact List.forall_mem_cons.mpr ⟨hv.1, hacc⟩

theorem composed_popArguments (descriptor : String) :
    Composed env depth F G (popArguments descriptor) fun x => ∀ v ∈ x.1, G v := by
  have hparse : Raises F (MethodDescriptor.parse descriptor) :=
    MethodDescriptor.raises_parse (T.faults.mono (by decide)) descriptor
  refine (Composed.attempt hparse).andThen fun d => ?_
  exact (composed_popArgumentsFrom T _ (by simp)).bind fun vs hvs => .pure hvs

theorem composed_popReceiver (r : MemberRef) :
    Composed env depth F G (popReceiver r) fun target => G (.reference target) := by
  refine (composed_popReference T).bind fun target htarget => ?_
  cases target with
  | none => exact .fail (T.faults.of _ (by decide) (by decide))
  | some target => exact .pure (htarget target rfl)

theorem composed_nativeCall? (r : MemberRef) (hasReceiver : Bool) :
    Composed env depth F G (nativeCall? env r hasReceiver) fun step? =>
      ∀ step, step? = some step → step.Sound env G := by
  unfold nativeCall?
  cases hrun : env.natives.find? r with
  | none => exact .pure fun _ h => nomatch h
  | some run =>
    refine (composed_popArguments T _).bind fun ⟨arguments, parameters⟩ hargs => ?_
    -- The call is the same with and without a receiver below the arguments.
    have hcall : ∀ receiver : Option Value, (∀ v, receiver = some v → G v) →
        Step.Sound env G (.invoke ⟨r, .native run none, receiver, arguments, parameters⟩ false) := by
      intro receiver hreceiver
      refine ⟨fun run' method? hcallee => ?_, ?_⟩
      · cases hcallee
        exact ⟨r, hrun⟩
      · cases receiver with
        | none => exact hargs
        | some v => exact List.forall_mem_cons.mpr ⟨hreceiver v rfl, hargs⟩
    cases hasReceiver with
    | false =>
      refine .pure fun step hstep => ?_
      cases hstep
      exact hcall none nofun
    | true =>
      refine Composed.bind (P := fun target => ∀ v, target.map Value.reference = some v → G v) ?_
        fun target htarget => .pure fun step hstep => ?_
      · refine (composed_popReceiver T r).bind fun target htarget => .pure fun v hv => ?_
        cases hv
        exact htarget
      · cases hstep
        exact hcall _ htarget

omit T in
theorem ensureOrNative_eq (r : MemberRef) (m : Class → Exec Step) :
    ensureOrNative env r m = recover (env.loader.ensure r.className) m fun f =>
      if f.cause? = some .classNotFound then
        nativeCall? env r true >>= fun
          | some step => pure step
          | none => Effect.fail f
      else Effect.fail f := by
  funext s
  unfold ensureOrNative recover
  rcases onArea (env.loader.ensure r.className) s with ⟨f | c, t⟩
  · dsimp only
    split
    · rw [Effect.bind_apply]
      rcases nativeCall? env r true t with ⟨g | _ | step, u⟩ <;> rfl
    · rfl
  · rfl

omit T in
theorem yields_ensure {I : MethodArea → Prop} (hI : env.Stable I) (name : String) :
    Effect.Yields I (env.loader.ensure name) fun _ => True :=
  hI.load.ensure name

theorem composed_ensure (name : String) :
    Composed env depth F G (onArea (env.loader.ensure name)) fun _ => True :=
  .onArea (T.load name) fun _ hI => yields_ensure hI name

theorem composed_ensureOrNative (r : MemberRef) {m : Class → Exec Step}
    (hm : ∀ c, Composed env depth F G (m c) (Step.Sound env G)) :
    Composed env depth F G (ensureOrNative env r m) (Step.Sound env G) := by
  rw [ensureOrNative_eq]
  refine .recover (T.load _) (fun _ hI => yields_ensure hI _) (fun c _ => hm c) fun f hf => ?_
  split
  · refine (composed_nativeCall? T r true).bind fun step? hstep => ?_
    cases step? with
    | none => exact .fail hf
    | some step => exact .pure (hstep step rfl)
  · exact .fail hf

theorem Terms.raises_bind (cls : Class) (method : Method) (receiver : Option Value)
    (arguments : List Value) (parameters : List FieldType) :
    Raises F (env.bind cls method receiver arguments parameters) := by
  unfold Environment.bind
  dsimp only
  split
  · exact .error (T.faults.of _ (by decide) (by decide))
  · split
    · exact .ok _
    · split
      · exact .error (T.faults.of _ (by decide) (by decide))
      · exact .ok _

omit T in
theorem sound_bind {cls : Class} {method : Method} {receiver : Option Reference}
    {arguments : List Value} {parameters : List FieldType} {i : Invocation}
    (hreceiver : ∀ r, receiver = some r → G (.reference r)) (harguments : ∀ v ∈ arguments, G v)
    (h : env.bind cls method (receiver.map .reference) arguments parameters = .ok i) :
    i.Sound env G := by
  refine ⟨Environment.bind_known h, ?_⟩
  obtain ⟨callee, rfl, -⟩ := Environment.bind_eq_ok h
  unfold Invocation.nativeArguments
  cases receiver with
  | none => exact harguments
  | some r => exact List.forall_mem_cons.mpr ⟨hreceiver r rfl, harguments⟩

theorem composed_call (cls : Class) (method : Method) {receiver : Option Reference}
    {arguments : List Value} (parameters : List FieldType)
    (hreceiver : ∀ r, receiver = some r → G (.reference r)) (harguments : ∀ v ∈ arguments, G v) :
    Composed env depth F G (call env cls method receiver arguments parameters)
      (Step.Sound env G) :=
  (Composed.ofExcept (fun _ h => sound_bind hreceiver harguments h)
    (T.raises_bind _ _ _ _ _)).bind fun _ hi => .pure hi

omit T in
theorem sound_claimFrom {cs : List Class} {a : MethodArea} {i : Invocation}
    (h : (env.claimFrom cs a).1 = some i) : i.Sound env G := by
  obtain ⟨k, -, hk⟩ := Environment.initializer?_of_claimFrom h
  refine ⟨Environment.initializer?_known hk, fun v hv => ?_⟩
  obtain ⟨callee, -, rfl⟩ := Option.map_eq_some_iff.mp hk
  cases hv

omit T in
theorem composed_initStep (c : Class) :
    Composed env depth F G (onArea (env.initStep c)) fun next =>
      ∀ i, next = some i → i.Sound env G := by
  refine .onArea (fun a => .ok _) fun I hI a ha => ⟨hI.start c a ha, fun next hnext i hi => ?_⟩
  cases hnext
  exact sound_claimFrom hi

omit T in
theorem composed_initialized (c : Class) {m : Exec Step}
    (hm : Composed env depth F G m (Step.Sound env G)) :
    Composed env depth F G (initialized env c m) (Step.Sound env G) := by
  refine (composed_initStep c).bind fun next hnext => ?_
  cases next with
  | none => exact hm
  | some i => exact .pure (hnext i rfl)

theorem composed_classOf (r : Reference) :
    Composed env depth F G (classOf env r) fun _ => True := by
  refine Composed.heap.andThen fun h => ?_
  cases r with
  | object n =>
    dsimp only
    split
    · exact .pure trivial
    · exact .fail (T.faults.of _ (by decide) (by decide))
  | array n => exact composed_ensure T _
  | string content origin => exact composed_ensure T _

theorem composed_resolveInterfaceMethod (c : Class) (name descriptor : String) :
    Composed env depth F G (onArea (env.loader.resolveInterfaceMethod c name descriptor))
      fun _ => True :=
  .onArea (Loader.raises_resolveInterfaceMethod T.resolution T.load c name descriptor)
    fun _ hI => hI.load.resolveInterfaceMethod c name descriptor

theorem composed_invokeStatic (index : UInt16) :
    Composed env depth F G (invokeStatic env index) (Step.Sound env G) := by
  refine Composed.pool.andThen fun p => ?_
  refine (Composed.attempt (p.raises_anyMethodref T.lookups index)).andThen fun ⟨r, _⟩ => ?_
  refine (composed_nativeCall? T r false).bind fun step? hstep => ?_
  cases step? with
  | some step => exact .pure (hstep step rfl)
  | none =>
    refine (composed_ensure T _).andThen fun c => ?_
    dsimp only
    split
    · exact .fail (T.faults.of _ (by decide) (by decide))
    · split
      · exact .fail (T.faults.of _ (by decide) (by decide))
      · refine composed_initialized _ ((composed_popArguments T _).bind fun x hx => ?_)
        exact composed_call T _ _ _ nofun hx

theorem composed_resolveSpecial (c : Class) (r : MemberRef) (isInterface : Bool) :
    Composed env depth F G (resolveSpecial env c r isInterface) fun _ => True := by
  unfold resolveSpecial
  split
  · exact .pure trivial
  · split
    · exact composed_resolveInterfaceMethod T _ _ _
    · exact .fail (T.faults.of _ (by decide) (by decide))

theorem composed_invocation (r : MemberRef)
    {k : List Value × List FieldType → Reference → Exec Step}
    (hk : ∀ x target, (∀ v ∈ x.1, G v) → G (.reference target) →
      Composed env depth F G (k x target) (Step.Sound env G)) :
    Composed env depth F G (popArguments r.descriptor >>= fun x => popReceiver r >>= k x)
      (Step.Sound env G) :=
  (composed_popArguments T _).bind fun x hx =>
    (composed_popReceiver T r).bind fun target htarget => hk x target hx htarget

theorem composed_invokeSpecial (index : UInt16) :
    Composed env depth F G (invokeSpecial env index) (Step.Sound env G) := by
  refine Composed.pool.andThen fun p => ?_
  refine (Composed.attempt (p.raises_anyMethodref T.lookups index)).andThen
    fun ⟨r, isInterface⟩ => ?_
  refine Composed.ite_bind (composed_nativeCall? T r true) (.pure fun _ h => nomatch h)
    fun step? hstep => ?_
  cases step? with
  | some step => exact .pure (hstep step rfl)
  | none =>
    refine (composed_ensure T _).andThen fun c => ?_
    show Composed env depth F G (currentClass >>= fun current =>
      resolveSpecial env (specialStart current c r) r isInterface >>= _) _
    refine Composed.currentClass.andThen fun current => ?_
    refine (composed_resolveSpecial T _ _ _).andThen fun ⟨decl, m⟩ => ?_
    dsimp only
    split
    · exact .fail (T.faults.of _ (by decide) (by decide))
    · split
      · exact .fail (T.faults.of _ (by decide) (by decide))
      · refine composed_invocation T r fun x target hx htarget => ?_
        exact composed_call T _ _ _ (by simpa using htarget) hx

theorem composed_invokeVirtual (index : UInt16) :
    Composed env depth F G (invokeVirtual env index) (Step.Sound env G) := by
  refine Composed.pool.andThen fun p => ?_
  refine (Composed.attempt (p.raises_methodref T.lookups index)).andThen fun r => ?_
  refine composed_ensureOrNative T r fun c => ?_
  refine (composed_resolveInterfaceMethod T _ _ _).andThen fun ⟨decl, m⟩ => ?_
  dsimp only
  split
  · exact .fail (T.faults.of _ (by decide) (by decide))
  · refine composed_invocation T r fun x target hx htarget => ?_
    split
    · exact composed_call T _ _ _ (by simpa using htarget) hx
    · refine (composed_classOf T target).andThen fun rc => ?_
      refine (composed_resolveInterfaceMethod T _ _ _).andThen fun selected => ?_
      exact composed_call T _ _ _ (by simpa using htarget) hx

theorem composed_invokeInterface (index : UInt16) :
    Composed env depth F G (invokeInterface env index) (Step.Sound env G) := by
  refine Composed.pool.andThen fun p => ?_
  refine (Composed.attempt (p.raises_interfaceMethodref T.lookups index)).andThen fun r => ?_
  refine composed_ensureOrNative T r fun c => ?_
  split
  · exact .fail (T.faults.of _ (by decide) (by decide))
  · refine (composed_resolveInterfaceMethod T _ _ _).andThen fun _ => ?_
    refine composed_invocation T r fun x target hx htarget => ?_
    refine (composed_classOf T target).andThen fun rc => ?_
    refine (composed_resolveInterfaceMethod T _ _ _).andThen fun ⟨decl, m⟩ => ?_
    dsimp only
    split
    · exact .fail (T.faults.of _ (by decide) (by decide))
    · exact composed_call T _ _ _ (by simpa using htarget) hx

/-! #### Fields, objects and arrays -/

theorem composed_resolveField (index : UInt16) (static : Bool) :
    Composed env depth F G (resolveField env index static) fun _ => True := by
  refine Composed.pool.andThen fun p => ?_
  refine (Composed.attempt (p.raises_fieldref T.lookups index)).andThen fun r => ?_
  refine (composed_ensure T _).andThen fun c => ?_
  have hfield : Composed env depth F G (onArea (env.loader.resolveField c r.name r.descriptor))
      fun _ => True :=
    .onArea (Loader.raises_resolveField T.resolution T.load c _ _)
      fun _ hI => hI.load.resolveField c _ _
  refine hfield.andThen fun ⟨decl, f⟩ => ?_
  dsimp only
  split
  · exact .pure trivial
  · exact .fail (T.faults.of _ (by decide) (by decide))

theorem composed_getStatic (index : UInt16) :
    Composed env depth F G (getStatic env index) (Step.Sound env G) := by
  refine (composed_resolveField T index true).andThen fun ⟨decl, r⟩ => composed_initialized _ ?_
  show Composed env depth F G (readStatic decl r >>= pushNext) _
  exact (Composed.readStatic decl r).bind fun v hv => composed_pushNext hv

omit T in
theorem putStatic_eq (index : UInt16) :
    putStatic env index = (do
      let (decl, r) ← resolveField env index true
      initialized env decl (do
        let v ← onFrame (Frame.popKind (Kind.ofDescriptor? r.descriptor))
        writeStatic decl r v)) := by
  refine bind_congr fun ⟨decl, r⟩ => ?_
  refine congrArg (initialized env decl) (bind_congr fun v => ?_)
  funext s
  show (Effect.ofExcept (s.world.area.setStatic decl r.name r.descriptor v) >>= _) s = _
  rw [Effect.bind_apply]
  simp only [Effect.ofExcept, writeStatic]
  cases s.world.area.setStatic decl r.name r.descriptor v <;> rfl

theorem composed_putStatic (index : UInt16) :
    Composed env depth F G (putStatic env index) (Step.Sound env G) := by
  rw [putStatic_eq]
  refine (composed_resolveField T index true).andThen fun ⟨decl, r⟩ => composed_initialized _ ?_
  exact (composed_popKind T _).bind fun v hv => .writeStatic decl r hv.1

theorem composed_popInstance (r : MemberRef) :
    Composed env depth F G (popInstance r) fun _ => True := by
  refine (composed_popReference T).andThen fun target => ?_
  cases target with
  | none => exact .fail (T.faults.of _ (by decide) (by decide))
  | some target =>
    refine Composed.heap.andThen fun h => ?_
    split
    · exact .pure trivial
    · exact .fail (T.faults.of _ (by decide) (by decide))

omit T in
theorem good_getField? {h : Heap} (hh : h.All G) {r : Reference} {key : MemberRef} {v : Value}
    (hget : h.getField? r key = some v) : G v := by
  obtain ⟨i, hi, hrest⟩ := Option.bind_eq_some_iff.mp hget
  obtain ⟨slot, -, hv⟩ := Option.bind_eq_some_iff.mp hrest
  cases r with
  | object n => exact hh.fields i (Array.mem_of_getElem? hi) v (List.mem_of_getElem? hv)
  | array n => cases hi
  | string content origin => cases hi

theorem composed_getField (index : UInt16) :
    Composed env depth F G (getField env index) (Step.Sound env G) := by
  refine (composed_resolveField T index false).andThen fun ⟨decl, r⟩ => ?_
  refine (composed_popInstance T r).andThen fun ⟨target, i⟩ => ?_
  refine Composed.heap.bind fun h hh => ?_
  split
  · rename_i v hget
    exact composed_pushNext (good_getField? hh hget)
  · exact .fail (T.faults.of _ (by decide) (by decide))

omit T in
theorem putField_eq (index : UInt16) :
    putField env index = (do
      let (decl, r) ← resolveField env index false
      let v ← onFrame (Frame.popKind (Kind.ofDescriptor? r.descriptor))
      let (target, i) ← popInstance r
      writeField target ⟨decl.name, r.name, r.descriptor⟩ v (noField i decl r)) := by
  refine bind_congr fun ⟨decl, r⟩ => bind_congr fun v => bind_congr fun ⟨target, i⟩ => ?_
  funext s
  simp only [writeField, heap, Effect.bind_apply]
  cases s.world.heap.setField? target ⟨decl.name, r.name, r.descriptor⟩ v <;> rfl

theorem composed_putField (index : UInt16) :
    Composed env depth F G (putField env index) (Step.Sound env G) := by
  rw [putField_eq]
  refine (composed_resolveField T index false).andThen fun ⟨decl, r⟩ => ?_
  refine (composed_popKind T _).bind fun v hv => ?_
  refine (composed_popInstance T r).andThen fun ⟨target, i⟩ => ?_
  exact .writeField _ _ hv.1 (T.faults.of _ (by decide) (by decide))

theorem composed_isInstance (r : Reference) (target : String) :
    Composed env depth F G (isInstance env r target) fun _ => True := by
  refine Composed.heap.andThen fun h => ?_
  split
  · exact .pure trivial
  · split
    · split
      · exact .onArea (Loader.raises_isAssignable T.resolution T.load _ _)
          fun _ hI => hI.load.isAssignable _ _
      · exact .pure trivial
    · split
      · exact .pure trivial
      · split <;> exact .pure trivial
    · exact .pure trivial

theorem composed_checkCast (index : UInt16) :
    Composed env depth F G (checkCast env index) (Step.Sound env G) := by
  refine Composed.pool.andThen fun p => ?_
  refine (Composed.attempt (p.raises_className T.lookups index)).andThen
    fun target => Composed.peek.andThen fun v => ?_
  refine (Composed.attempt (T.raises_expect v _)).andThen fun u => ?_
  split
  · refine (composed_isInstance T _ _).andThen fun isInstance => ?_
    split
    · exact .pure trivial
    · exact Composed.heap.andThen fun h => .fail (T.faults.of _ (by decide) (by decide))
  · exact .pure trivial

theorem composed_popArray :
    Composed env depth F G popArray fun array => ∀ v ∈ array.elements, G v := by
  refine (composed_popReference T).andThen fun target => ?_
  cases target with
  | none => exact .fail (T.faults.of _ (by decide) (by decide))
  | some r =>
    refine Composed.heap.bind fun h hh => ?_
    cases r with
    | array n =>
      split
      · rename_i array hget
        exact .pure (hh.elements array (Array.mem_of_getElem? hget))
      · exact .fail (T.faults.of _ (by decide) (by decide))
    | object n => exact .fail (T.faults.of _ (by decide) (by decide))
    | string content origin => exact .fail (T.faults.of _ (by decide) (by decide))

theorem composed_arrayLength : Composed env depth F G arrayLength (Step.Sound env G) :=
  (composed_popArray T).andThen fun _ => composed_pushNext (T.plain _ trivial)

theorem composed_loadElement : Composed env depth F G loadElement (Step.Sound env G) := by
  refine (composed_popInt T).andThen fun index => (composed_popArray T).bind fun array harray => ?_
  split
  · exact .fail (T.faults.of _ (by decide) (by decide))
  · split
    · rename_i v hget
      refine composed_pushNext (harray v ?_)
      split at hget
      · cases hget
      · exact List.mem_of_getElem? hget
    · exact .fail (T.faults.of _ (by decide) (by decide))

/-- Finds the class of a new instance; what is left to do is to call an initialiser or to
allocate. -/
def findNew (env : Environment) (index : UInt16) : Exec (Step ⊕ Class) := do
  let p ← pool
  let name ← Effect.ofExcept (p.className index)
  let c ← onArea (env.loader.ensure name)
  if c.isInterface || Access.has c.file.flags Access.abstractBit then
    Effect.fail (incompatible ("new of " ++ Access.text .wholeClass c.file.flags ++ " " ++ name))
  else match ← onArea (env.initStep c) with
    | some i => return .inl (.invoke i true)
    | none => return .inr c

omit T in
theorem newInstance_eq (index : UInt16) : newInstance env index = findNew env index >>= conclude := by
  simp only [newInstance, findNew, bind_assoc]
  refine bind_congr fun p => bind_congr fun name => bind_congr fun c => ?_
  split
  · rfl
  · simp only [initialized, bind_assoc]
    refine bind_congr fun next => ?_
    cases next <;> rfl

def Ending (env : Environment) (G : Value → Prop) : Step ⊕ Class → Prop :=
  Sum.elim (Step.Sound env G) fun _ => True

theorem composed_findNew (index : UInt16) :
    Composed env depth F G (findNew env index) (Ending env G) := by
  refine Composed.pool.andThen fun p => ?_
  refine (Composed.attempt (p.raises_className T.lookups index)).andThen
    fun name => (composed_ensure T _).andThen fun c => ?_
  split
  · exact .fail (T.faults.of _ (by decide) (by decide))
  · refine (composed_initStep c).bind fun next hnext => ?_
    cases next with
    | none => exact .pure trivial
    | some i => exact .pure (hnext i rfl)

omit T in
theorem exists_ending {m : Exec Step} (h : Composed env depth F G m (Step.Sound env G)) :
    ∃ m', Composed env depth F G m' (Ending env G) ∧ m = m' >>= conclude := by
  refine ⟨m >>= fun step => pure (.inl step), h.bind fun step hstep => .pure hstep, ?_⟩
  rw [bind_assoc]
  exact (bind_pure m).symm

variable (depth) in
/-- Every instruction is a composition of parts that may allocate at its end. -/
theorem execute_composed (i : Instruction) :
    ∃ m, Composed env depth F G m (Ending env G) ∧ env.execute depth i = m >>= conclude := by
  rw [Environment.execute]
  cases i.opcode with
  | nop | goto => exact exists_ending (.pure trivial)
  | voidReturn => exact exists_ending (.pure (T.plain _ trivial))
  | aconstNull | iconst | lconst | fconst | dconst | bipush | sipush =>
    exact exists_ending (composed_pushNext (T.plain _ trivial))
  | ldc | ldcW => exact exists_ending (composed_loadConstant T _)
  | ldc2W => exact exists_ending (composed_loadWideConstant T _)
  | load | loadFrom => exact exists_ending (composed_loadLocal T _ _)
  | aaload => exact exists_ending (composed_loadElement T)
  | store | storeTo => exact exists_ending (composed_storeLocal T _ _)
  | pop => exact exists_ending (composed_rearrange (composed_popOne T))
  | pop2 => exact exists_ending (composed_rearrange (composed_popTwo T))
  | dup => exact exists_ending (composed_rearrange (composed_duplicate T))
  | dupX1 => exact exists_ending (composed_rearrange (composed_duplicateBelowOne T))
  | dupX2 => exact exists_ending (composed_rearrange (composed_duplicateBelowTwo T))
  | swap => exact exists_ending (composed_rearrange (composed_exchange T))
  | intBinary op => exact exists_ending (composed_intBinary T op)
  | longBinary op => exact exists_ending (composed_longBinary T op)
  | ineg | i2l | i2b | i2c | i2s => exact exists_ending (composed_intUnary T fun _ => trivial)
  | lneg | l2i => exact exists_ending (composed_longUnary T fun _ => trivial)
  | iinc => exact exists_ending (composed_increment T _ _)
  | lcmp => exact exists_ending (composed_longCompare T)
  | ifInt c => exact exists_ending (composed_ifInt T c i)
  | ifIntCompare c => exact exists_ending (composed_ifInts T c i)
  | ifReferenceCompare equal => exact exists_ending (composed_ifReferences T equal i)
  | ifNull null => exact exists_ending (composed_ifNull T null i)
  | valueReturn kind => exact exists_ending (composed_valueReturn T kind)
  | getstatic => exact exists_ending (composed_getStatic T _)
  | putstatic => exact exists_ending (composed_putStatic T _)
  | getfield => exact exists_ending (composed_getField T _)
  | putfield => exact exists_ending (composed_putField T _)
  | invokevirtual => exact exists_ending (composed_invokeVirtual T _)
  | invokespecial => exact exists_ending (composed_invokeSpecial T _)
  | invokestatic => exact exists_ending (composed_invokeStatic T _)
  | invokeinterface => exact exists_ending (composed_invokeInterface T _)
  | arraylength => exact exists_ending (composed_arrayLength T)
  | checkcast => exact exists_ending (composed_checkCast T _)
  -- The only instruction that grows the heap.
  | new => exact ⟨_, composed_findNew T _, newInstance_eq _⟩

end

end Exec

end Jvm
