import Mathlib.Data.List.Forall2
import Jvm.Machine.Thread
import Jvm.Proofs.Machine.Guarding

/-!
# The operands of a call

An instruction that calls a method takes the arguments off the stack of its frame, and the receiver
below them if it calls an instance method. It takes nothing else, and the rest of the frame stays
as it is. `Pops` carries this from the parts of an instruction to the whole.
-/

namespace Jvm

/-! ### Computations that take values off the stack -/

/-- Whenever `m` succeeds, it has taken values off the operand stack and left the rest of the frame
alone, and `P` holds of the values and of what it returns. -/
def Pops {σ α : Type} (frame : σ → Frame) (m : Effect σ α) (P : List Value → α → Prop) : Prop :=
  ∀ s t a, m s = (.ok a, t) →
    ∃ taken, frame s = { frame t with stack := taken ++ (frame t).stack } ∧ P taken a

namespace Pops

variable {σ α β : Type} {frame : σ → Frame} {P : List Value → α → Prop}
  {Q : List Value → β → Prop}

theorem of_frame_eq {m : Effect σ α}
    (h : ∀ s t a, m s = (.ok a, t) → frame t = frame s ∧ P [] a) : Pops frame m P := by
  intro s t a hm
  obtain ⟨hframe, hP⟩ := h s t a hm
  exact ⟨[], by rw [hframe, List.nil_append], hP⟩

theorem pure {a : α} (h : P [] a) : Pops frame (pure a : Effect σ α) P :=
  of_frame_eq fun s t b hm => by
    cases hm
    exact ⟨rfl, h⟩

theorem fail (f : Fault) : Pops frame (Effect.fail f : Effect σ α) P :=
  fun _ _ _ hm => nomatch hm

theorem ofExcept {e : Except Fault α} (h : ∀ a, e = .ok a → P [] a) :
    Pops frame (Effect.ofExcept e : Effect σ α) P :=
  of_frame_eq fun s t a hm => by
    obtain ⟨he, rfl⟩ := Effect.ofExcept_eq_ok.mp hm
    exact ⟨rfl, h a he⟩

theorem mono {m : Effect σ α} {P' : List Value → α → Prop} (h : Pops frame m P)
    (hP : ∀ taken a, P taken a → P' taken a) : Pops frame m P' := by
  intro s t a hm
  obtain ⟨taken, hframe, hPa⟩ := h s t a hm
  exact ⟨taken, hframe, hP taken a hPa⟩

/-- What the second part takes lay below what the first part took. -/
theorem bind {m : Effect σ α} {f : α → Effect σ β} (hm : Pops frame m P)
    (hf : ∀ above a, P above a → Pops frame (f a) fun taken b => Q (above ++ taken) b) :
    Pops frame (m >>= f) Q := by
  intro s u b h
  obtain ⟨a, t, hst, htu⟩ := Effect.bind_eq_ok.mp h
  obtain ⟨above, hs, hP⟩ := hm s t a hst
  obtain ⟨taken, ht, hQ⟩ := hf above a hP t u b htu
  refine ⟨above ++ taken, ?_, hQ⟩
  rw [hs, ht, List.append_assoc]

theorem map {m : Effect σ α} {g : α → β} (h : Pops frame m fun taken a => Q taken (g a)) :
    Pops frame (g <$> m) Q := by
  refine h.bind fun above a habove => pure ?_
  rwa [List.append_nil]

theorem after {m : Effect σ α} {f : α → Effect σ β} (hm : Pops frame m fun taken _ => taken = [])
    (hf : ∀ a, Pops frame (f a) Q) : Pops frame (m >>= f) Q := by
  refine hm.bind fun above a habove => ?_
  subst habove
  exact hf a

theorem ite_bind {c : Prop} [Decidable c] {m₁ m₂ : Effect σ α} {f : α → Effect σ β}
    (h₁ : Pops frame m₁ P) (h₂ : Pops frame m₂ P)
    (hf : ∀ above a, P above a → Pops frame (f a) fun taken b => Q (above ++ taken) b) :
    Pops frame (if c then m₁ >>= f else m₂ >>= f) Q := by
  split
  · exact h₁.bind hf
  · exact h₂.bind hf

theorem onFrame {m : Effect Frame α} (h : Pops id m P) : Pops Scene.frame (Scene.onFrame m) P := by
  intro s t a hm
  rw [Scene.onFrame, Effect.zoom] at hm
  rcases hframe : m s.frame with ⟨r, f⟩
  rw [hframe] at hm
  cases hm
  exact h s.frame f a hframe

theorem onArea (m : Effect MethodArea α) :
    Pops Scene.frame (Scene.onArea m) fun taken _ => taken = [] :=
  of_frame_eq fun s t a hm => by
    rw [onArea_apply] at hm
    obtain rfl : s.withArea (m s.world.area).2 = t := congrArg Prod.snd hm
    exact ⟨rfl, rfl⟩

end Pops

/-! ### Values of the kinds asked for -/

theorem Value.expect_eq_ok {v w : Value} {kind : Option Kind} (h : v.expect kind = .ok w) :
    w = v ∧ v.kind? = kind := by
  unfold expect at h
  split at h
  · rename_i hkind
    cases h
    exact ⟨rfl, hkind⟩
  · cases h

namespace Frame

theorem pops_pop : Pops id pop fun taken v => taken = [v] := by
  intro f g v h
  unfold pop at h
  split at h
  · cases h
  · rename_i top rest hstack
    cases h
    refine ⟨[v], ?_, rfl⟩
    show f = { f with stack := v :: rest }
    rw [← hstack]

theorem pops_popKind (kind : Option Kind) :
    Pops id (popKind kind) fun taken v => taken = [v] ∧ v.kind? = kind := by
  refine pops_pop.bind fun above v habove => Pops.ofExcept fun w hw => ?_
  obtain ⟨rfl, hkind⟩ := Value.expect_eq_ok hw
  rw [List.append_nil]
  exact ⟨habove, hkind⟩

theorem pops_popReference :
    Pops id popReference fun taken r? => ∀ r, r? = some r → taken = [.reference r] := by
  refine (pops_popKind (some .reference)).bind fun above v habove => ?_
  obtain ⟨rfl, -⟩ := habove
  cases v with
  | reference r =>
    refine Pops.pure fun r' hr => ?_
    cases hr
    rfl
  | _ => exact Pops.pure fun r hr => nomatch hr

end Frame

/-! ### Arguments and receivers -/

def Arguments (parameters : List FieldType) (values : List Value) : Prop :=
  List.Forall₂ (fun t v => v.kind? = some t.kind) parameters values

namespace Exec

theorem pops_popArgumentsFrom (types : List FieldType) (acc : List Value) :
    Pops id (popArgumentsFrom types acc) fun taken out =>
      out = taken.reverse ++ acc ∧ Arguments types taken := by
  induction types generalizing acc with
  | nil => exact Pops.pure ⟨rfl, .nil⟩
  | cons t rest ih =>
    refine (Frame.pops_popKind (some t.kind)).bind fun above v habove => ?_
    obtain ⟨rfl, hkind⟩ := habove
    refine (ih (v :: acc)).mono fun taken out hout => ?_
    obtain ⟨rfl, hrest⟩ := hout
    exact ⟨by simp, .cons hkind hrest⟩

theorem pops_popArguments (descriptor : String) :
    Pops Scene.frame (popArguments descriptor) fun taken out =>
      ∃ d, MethodDescriptor.parse descriptor = .ok d ∧ out.2 = d.parameters ∧
        Arguments d.parameters out.1 ∧ taken = out.1.reverse := by
  have hparse : Pops Scene.frame (Effect.ofExcept (MethodDescriptor.parse descriptor))
      fun taken d => taken = [] ∧ MethodDescriptor.parse descriptor = .ok d :=
    Pops.ofExcept fun d hd => ⟨rfl, hd⟩
  refine hparse.bind fun above d habove => ?_
  obtain ⟨rfl, hd⟩ := habove
  refine (Pops.onFrame (pops_popArgumentsFrom d.parameters.reverse [])).bind
    fun taken values htaken => Pops.pure ?_
  obtain ⟨hvalues, hkinds⟩ := htaken
  -- The last argument lies on top, so the values come off in the order of the reversed parameters.
  have hreverse : values = taken.reverse := by simpa using hvalues
  subst hreverse
  refine ⟨d, hd, rfl, ?_, by simp⟩
  have hflip := List.forall₂_reverse_iff.mpr hkinds
  rwa [List.reverse_reverse] at hflip

theorem pops_popReceiver (r : MemberRef) :
    Pops Scene.frame (popReceiver r) fun taken target => taken = [.reference target] := by
  refine (Pops.onFrame Frame.pops_popReference).bind fun above r? habove => ?_
  cases r? with
  | none => exact Pops.fail _
  | some target =>
    refine Pops.pure ?_
    rw [List.append_nil]
    exact habove target rfl

end Exec

/-! ### Calls -/

/-- The loaded method that a call runs. A native that was called by its reference is none. -/
def Callee.method? : Callee → Option (Class × Method)
  | .native _ method? => method?
  | .body cls method => some (cls, method)

structure Environment.CanRun (env : Environment) (decl : Class) (m : Method) : Prop where
  concrete : m.isAbstract = false
  implemented :
    (env.natives.find? ⟨decl.name, m.name, m.descriptor⟩).isSome ∨ m.code?.isSome

theorem Environment.bind_eq_ok {env : Environment} {cls : Class} {method : Method}
    {receiver : Option Value} {arguments : List Value} {parameters : List FieldType}
    {i : Invocation} (h : env.bind cls method receiver arguments parameters = .ok i) :
    ∃ callee, i = ⟨⟨cls.name, method.name, method.descriptor⟩, callee, receiver, arguments,
        parameters⟩ ∧ callee.method? = some (cls, method) ∧ env.CanRun cls method := by
  unfold bind at h
  dsimp only at h
  split at h
  · cases h
  · rename_i hconcrete
    have hconcrete : method.isAbstract = false := Bool.eq_false_iff.mpr hconcrete
    split at h
    · rename_i run hrun
      cases h
      exact ⟨_, rfl, rfl, hconcrete, .inl (Option.isSome_of_eq_some hrun)⟩
    · split at h
      · cases h
      · rename_i hbody
        cases h
        obtain ⟨-, hcode⟩ := Bool.or_eq_false_iff.mp (Bool.eq_false_iff.mpr hbody)
        exact ⟨_, rfl, rfl, hconcrete, .inr (Option.isNone_eq_false_iff.mp hcode)⟩

/-- A call takes the values `taken` off the stack: the arguments of the method that `r` refers to,
of the kinds of its parameters, and below them the receiver of an instance method, which is not
null. -/
structure Invocation.Consumes (r : MemberRef) (hasReceiver : Bool) (taken : List Value)
    (i : Invocation) : Prop where
  parameters : ∃ d, MethodDescriptor.parse r.descriptor = .ok d ∧ i.parameters = d.parameters
  arguments : Arguments i.parameters i.arguments
  receiver : ∃ target? : Option Reference, target?.isSome = hasReceiver ∧
    i.receiver = target?.map .reference
  taken : taken = i.arguments.reverse ++ i.receiver.toList

/-- Whatever call a step asks for, other than that of an initialiser, takes these values. -/
def Step.Consumes (r : MemberRef) (hasReceiver : Bool) (taken : List Value) (step : Step) : Prop :=
  ∀ i, step = .invoke i false → i.Consumes r hasReceiver taken

namespace Exec

variable {env : Environment} {r : MemberRef} {hasReceiver : Bool}

def ReceiverTaken (hasReceiver : Bool) (taken : List Value) (target? : Option Reference) : Prop :=
  target?.isSome = hasReceiver ∧ taken = (target?.map Value.reference).toList

theorem consumes_invoke {d : MethodDescriptor} {taken arguments : List Value}
    {target? : Option Reference} (hd : MethodDescriptor.parse r.descriptor = .ok d)
    (harguments : Arguments d.parameters arguments)
    (hreceiver : ReceiverTaken hasReceiver taken target?) (target : MemberRef) (callee : Callee) :
    (Step.invoke ⟨target, callee, target?.map .reference, arguments, d.parameters⟩ false).Consumes r
      hasReceiver (arguments.reverse ++ taken) := by
  intro i hi
  cases hi
  obtain ⟨hsome, rfl⟩ := hreceiver
  exact ⟨⟨d, hd, rfl⟩, harguments, ⟨target?, hsome, rfl⟩, rfl⟩

/-- Where there is no native to call, nothing has been taken yet. -/
def NativeTaken (r : MemberRef) (hasReceiver : Bool) (taken : List Value) : Option Step → Prop
  | none => taken = []
  | some step => step.Consumes r hasReceiver taken

theorem pops_nativeCall? (r : MemberRef) (hasReceiver : Bool) :
    Pops Scene.frame (nativeCall? env r hasReceiver) (NativeTaken r hasReceiver) := by
  unfold nativeCall?
  cases env.natives.find? r with
  | none => exact Pops.pure rfl
  | some run =>
    refine (pops_popArguments r.descriptor).bind fun above out habove => ?_
    obtain ⟨arguments, parameters⟩ := out
    obtain ⟨d, hd, rfl, harguments, rfl⟩ := habove
    have hcall : ∀ taken target?, ReceiverTaken hasReceiver taken target? →
        Pops (Scene.frame) (Pure.pure (some (Step.invoke ⟨r, .native run none,
          target?.map .reference, arguments, d.parameters⟩ false)) : Exec (Option Step))
          fun rest => NativeTaken r hasReceiver (arguments.reverse ++ (taken ++ rest)) := by
      intro taken target? hreceiver
      refine Pops.pure ?_
      rw [List.append_nil]
      exact consumes_invoke hd harguments hreceiver r _
    dsimp only
    cases hasReceiver with
    | false =>
      rw [if_neg Bool.false_ne_true]
      have hnone : Pops Scene.frame (Pure.pure none : Exec (Option Reference))
          (ReceiverTaken false) := Pops.pure ⟨rfl, rfl⟩
      exact hnone.bind fun taken target? htaken => hcall taken target? htaken
    | true =>
      rw [if_pos rfl]
      have hreceiver : Pops Scene.frame (some <$> popReceiver r) (ReceiverTaken true) :=
        Pops.map ((pops_popReceiver r).mono fun taken target htaken => ⟨rfl, htaken⟩)
      exact hreceiver.bind fun taken target? htaken => hcall taken target? htaken

theorem pops_unlessNative {f : Option Step → Exec Step}
    (hsome : ∀ step, f (some step) = Pure.pure step)
    (hnone : Pops Scene.frame (f none) fun taken step => step.Consumes r hasReceiver taken)
    (above : List Value) (step? : Option Step) (habove : NativeTaken r hasReceiver above step?) :
    Pops Scene.frame (f step?) fun taken step => step.Consumes r hasReceiver (above ++ taken) := by
  cases step? with
  | none =>
    rw [show above = [] from habove]
    exact hnone
  | some step =>
    rw [hsome]
    refine Pops.pure ?_
    rw [List.append_nil]
    exact habove

theorem pops_call (cls : Class) (method : Method) {d : MethodDescriptor} {taken : List Value}
    {arguments : List Value} {target? : Option Reference}
    (hd : MethodDescriptor.parse r.descriptor = .ok d)
    (harguments : Arguments d.parameters arguments)
    (hreceiver : ReceiverTaken hasReceiver taken target?) :
    Pops Scene.frame (call env cls method target? arguments d.parameters) fun rest step =>
      step.Consumes r hasReceiver (arguments.reverse ++ (taken ++ rest)) := by
  have hbind : Pops Scene.frame (Effect.ofExcept
      (env.bind cls method (target?.map .reference) arguments d.parameters)) fun rest i =>
        rest = [] ∧ ∃ target callee,
          i = ⟨target, callee, target?.map .reference, arguments, d.parameters⟩ := by
    refine Pops.ofExcept fun i hi => ⟨rfl, ?_⟩
    obtain ⟨callee, rfl, -⟩ := Environment.bind_eq_ok hi
    exact ⟨_, callee, rfl⟩
  refine hbind.bind fun above i habove => Pops.pure ?_
  obtain ⟨rfl, target, callee, rfl⟩ := habove
  simpa using consumes_invoke hd harguments hreceiver target callee

theorem pops_initialized (c : Class) {m : Exec Step}
    (h : Pops Scene.frame m fun taken step => step.Consumes r hasReceiver taken) :
    Pops Scene.frame (initialized env c m) fun taken step => step.Consumes r hasReceiver taken := by
  refine (Pops.onArea _).after fun i? => ?_
  cases i? with
  | some i => exact Pops.pure fun j hj => nomatch hj
  | none => exact h

theorem ensureOrNative_eq_ok {m : Class → Exec Step} {s t : Scene} {step : Step}
    (h : ensureOrNative env r m s = (.ok step, t)) :
    (∃ c u, Scene.onArea (env.loader.ensure r.className) s = (.ok c, u) ∧
      m c u = (.ok step, t)) ∨
    ∃ f u, Scene.onArea (env.loader.ensure r.className) s = (.error f, u) ∧
      nativeCall? env r true u = (.ok (some step), t) := by
  unfold ensureOrNative at h
  rcases hensure : Scene.onArea (env.loader.ensure r.className) s with ⟨f | c, u⟩
  · rw [hensure] at h
    dsimp only at h
    split at h
    · rcases hnative : nativeCall? env r true u with ⟨g | _ | called, v⟩ <;> rw [hnative] at h
      · cases h
      · cases h
      · cases h
        exact .inr ⟨f, u, rfl, hnative⟩
    · cases h
  · rw [hensure] at h
    exact .inl ⟨c, u, rfl, h⟩

theorem pops_ensureOrNative (r : MemberRef) {m : Class → Exec Step}
    (hm : ∀ c, Pops Scene.frame (m c) fun taken step => step.Consumes r true taken) :
    Pops Scene.frame (ensureOrNative env r m) fun taken step => step.Consumes r true taken := by
  intro s t step h
  rcases ensureOrNative_eq_ok h with ⟨c, u, hensure, hrest⟩ | ⟨f, u, hensure, hnative⟩
  · obtain ⟨_, hs, rfl⟩ := Pops.onArea _ s u c hensure
    obtain ⟨taken, hu, hstep⟩ := hm c u t step hrest
    refine ⟨taken, ?_, hstep⟩
    rw [hs, List.nil_append]
    exact hu
  · -- No class is found, but the frame is as before, and a native may take its operands.
    have hframe : u.frame = s.frame := by
      rw [onArea_apply] at hensure
      obtain rfl : s.withArea _ = u := congrArg Prod.snd hensure
      rfl
    obtain ⟨taken, hu, hstep⟩ := pops_nativeCall? r true u t _ hnative
    exact ⟨taken, hframe ▸ hu, hstep⟩

theorem pops_classOf (target : Reference) :
    Pops Scene.frame (classOf env target) fun taken _ => taken = [] := by
  have hheap : Pops Scene.frame heap fun taken _ => taken = [] :=
    Pops.of_frame_eq fun s t a h => by
      cases h
      exact ⟨rfl, rfl⟩
  refine hheap.after fun h => ?_
  cases target with
  | object n =>
    dsimp only
    cases h.instance? (.object n) with
    | none => exact Pops.fail _
    | some i => exact Pops.pure rfl
  | array n => exact Pops.onArea _
  | string content origin => exact Pops.onArea _

theorem pops_resolveSpecial (c : Class) (r : MemberRef) (isInterface : Bool) :
    Pops Scene.frame (resolveSpecial env c r isInterface) fun taken _ => taken = [] := by
  unfold resolveSpecial
  split
  · exact Pops.pure rfl
  · split
    · exact Pops.onArea _
    · exact Pops.fail _

/-- The operands of a call of an instance method come off before the method is selected. -/
theorem pops_operands {f : List Value × List FieldType → Reference → Exec Step}
    (hf : ∀ d arguments target, MethodDescriptor.parse r.descriptor = .ok d →
      Arguments d.parameters arguments →
        Pops Scene.frame (f (arguments, d.parameters) target) fun rest step =>
          step.Consumes r true (arguments.reverse ++ ([.reference target] ++ rest))) :
    Pops Scene.frame (popArguments r.descriptor >>= fun out => popReceiver r >>= f out)
      fun taken step => step.Consumes r true taken := by
  refine (pops_popArguments r.descriptor).bind fun above out habove => ?_
  obtain ⟨arguments, parameters⟩ := out
  obtain ⟨d, hd, rfl, harguments, rfl⟩ := habove
  refine (pops_popReceiver r).bind fun taken target htaken => ?_
  subst htaken
  exact hf d arguments target hd harguments

/-! ### The instructions that call -/

theorem exists_operands {ρ : Type} (lookup : ConstantPool → Except Fault ρ)
    (reference : ρ → MemberRef) {f : ρ → Exec Step} {s t : Scene} {step : Step}
    (h : (pool >>= fun p => Effect.ofExcept (lookup p) >>= f) s = (.ok step, t))
    (hf : ∀ x, Pops Scene.frame (f x) fun taken step =>
      step.Consumes (reference x) hasReceiver taken) :
    ∃ x taken, lookup s.frame.pool = .ok x ∧
      s.frame = { t.frame with stack := taken ++ t.frame.stack } ∧
      step.Consumes (reference x) hasReceiver taken := by
  rw [ClassUse.pool_bind] at h
  obtain ⟨x, s', hx, hrest⟩ := Effect.bind_eq_ok.mp h
  obtain ⟨hx, rfl⟩ := Effect.ofExcept_eq_ok.mp hx
  obtain ⟨taken, hframe, hstep⟩ := hf x _ t step hrest
  exact ⟨x, taken, hx, hframe, hstep⟩

theorem invokeStatic_operands {index : UInt16} {s t : Scene} {step : Step}
    (h : invokeStatic env index s = (.ok step, t)) :
    ∃ x taken, s.frame.pool.anyMethodref index = .ok x ∧
      s.frame = { t.frame with stack := taken ++ t.frame.stack } ∧
      step.Consumes x.1 false taken := by
  refine exists_operands (fun p => p.anyMethodref index) Prod.fst h fun ⟨r, _⟩ => ?_
  refine (pops_nativeCall? r false).bind (pops_unlessNative (fun _ => rfl) ?_)
  refine (Pops.onArea _).after fun c => ?_
  dsimp only
  split
  · exact Pops.fail _
  · split
    · exact Pops.fail _
    · refine pops_initialized _ ((pops_popArguments r.descriptor).bind fun above out habove => ?_)
      obtain ⟨arguments, parameters⟩ := out
      obtain ⟨d, hd, rfl, harguments, rfl⟩ := habove
      have hreceiver : ReceiverTaken false [] none := ⟨rfl, rfl⟩
      exact pops_call _ _ hd harguments hreceiver

theorem invokeSpecial_operands {index : UInt16} {s t : Scene} {step : Step}
    (h : invokeSpecial env index s = (.ok step, t)) :
    ∃ x taken, s.frame.pool.anyMethodref index = .ok x ∧
      s.frame = { t.frame with stack := taken ++ t.frame.stack } ∧
      step.Consumes x.1 true taken := by
  refine exists_operands (fun p => p.anyMethodref index) Prod.fst h fun ⟨r, isInterface⟩ => ?_
  have hread : Pops Scene.frame (Effect.read : Exec Scene) fun taken _ => taken = [] :=
    Pops.of_frame_eq fun s t a h => by
      cases h
      exact ⟨rfl, rfl⟩
  refine Pops.ite_bind (pops_nativeCall? r true) (Pops.pure rfl)
    (pops_unlessNative (fun _ => rfl) ?_)
  refine (Pops.onArea _).after fun c => ?_
  refine hread.after fun s => (pops_resolveSpecial _ r isInterface).after fun ⟨decl, m⟩ => ?_
  dsimp only
  split
  · exact Pops.fail _
  · split
    · exact Pops.fail _
    · refine pops_operands fun d arguments target hd harguments => ?_
      exact pops_call _ _ hd harguments ⟨rfl, rfl⟩

theorem invokeVirtual_operands {index : UInt16} {s t : Scene} {step : Step}
    (h : invokeVirtual env index s = (.ok step, t)) :
    ∃ r taken, s.frame.pool.methodref index = .ok r ∧
      s.frame = { t.frame with stack := taken ++ t.frame.stack } ∧ step.Consumes r true taken := by
  refine exists_operands (fun p => p.methodref index) id h fun r => ?_
  refine pops_ensureOrNative r fun c => (Pops.onArea _).after fun ⟨decl, m⟩ => ?_
  dsimp only
  split
  · exact Pops.fail _
  · refine pops_operands fun d arguments target hd harguments => ?_
    dsimp only
    split
    · exact pops_call _ _ hd harguments ⟨rfl, rfl⟩
    · refine (pops_classOf target).after fun rc => (Pops.onArea _).after fun found => ?_
      exact pops_call _ _ hd harguments ⟨rfl, rfl⟩

theorem invokeInterface_operands {index : UInt16} {s t : Scene} {step : Step}
    (h : invokeInterface env index s = (.ok step, t)) :
    ∃ r taken, s.frame.pool.interfaceMethodref index = .ok r ∧
      s.frame = { t.frame with stack := taken ++ t.frame.stack } ∧ step.Consumes r true taken := by
  refine exists_operands (fun p => p.interfaceMethodref index) id h fun r => ?_
  refine pops_ensureOrNative r fun c => ?_
  split
  · exact Pops.fail _
  · refine (Pops.onArea _).after fun found => ?_
    refine pops_operands fun d arguments target hd harguments => ?_
    refine (pops_classOf target).after fun rc => (Pops.onArea _).after fun ⟨decl, m⟩ => ?_
    dsimp only
    split
    · exact Pops.fail _
    · exact pops_call _ _ hd harguments ⟨rfl, rfl⟩

end Exec

def Opcode.calls : List Opcode := [.invokestatic, .invokespecial, .invokevirtual, .invokeinterface]

/-- The method reference of an instruction that calls a method. -/
def Instruction.callReference? (p : ConstantPool) (i : Instruction) : Option MemberRef :=
  match i.opcode with
  | .invokestatic | .invokespecial => (p.anyMethodref i.index).toOption.map Prod.fst
  | .invokevirtual => (p.methodref i.index).toOption
  | .invokeinterface => (p.interfaceMethodref i.index).toOption
  | _ => none

/-- A call instruction that asks for a call, and not for an initialiser, has taken the operands of
the method that it names off its stack, and nothing else. -/
theorem Environment.execute_operands {env : Environment} {depth : Nat} {i : Instruction}
    {s t : Scene} {inv : Invocation} (hcall : i.opcode ∈ Opcode.calls)
    (h : env.execute depth i s = (.ok (.invoke inv false), t)) :
    ∃ r taken, i.callReference? s.frame.pool = some r ∧
      s.frame = { t.frame with stack := taken ++ t.frame.stack } ∧
      inv.Consumes r (i.opcode ≠ .invokestatic) taken := by
  simp only [Opcode.calls, List.mem_cons, List.not_mem_nil, or_false] at hcall
  unfold execute at h
  rcases hcall with hop | hop | hop | hop <;> simp only [hop] at h
  · obtain ⟨⟨r, isInterface⟩, taken, hr, hframe, hstep⟩ := Exec.invokeStatic_operands h
    refine ⟨r, taken, ?_, hframe, ?_⟩
    · simp [Instruction.callReference?, hop, hr, Except.toOption]
    · simpa [hop] using hstep inv rfl
  · obtain ⟨⟨r, isInterface⟩, taken, hr, hframe, hstep⟩ := Exec.invokeSpecial_operands h
    refine ⟨r, taken, ?_, hframe, ?_⟩
    · simp [Instruction.callReference?, hop, hr, Except.toOption]
    · simpa [hop] using hstep inv rfl
  · obtain ⟨r, taken, hr, hframe, hstep⟩ := Exec.invokeVirtual_operands h
    refine ⟨r, taken, ?_, hframe, ?_⟩
    · simp [Instruction.callReference?, hop, hr, Except.toOption]
    · simpa [hop] using hstep inv rfl
  · obtain ⟨r, taken, hr, hframe, hstep⟩ := Exec.invokeInterface_operands h
    refine ⟨r, taken, ?_, hframe, ?_⟩
    · simp [Instruction.callReference?, hop, hr, Except.toOption]
    · simpa [hop] using hstep inv rfl

end Jvm
