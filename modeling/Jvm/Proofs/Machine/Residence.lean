import Jvm.Proofs.Machine.Selection
import Jvm.Proofs.Machine.Triggers

/-!
# Frames and instances of loaded classes

A frame and an instance hold their class, and nothing looks it up again under its name. But whatever
runs do, this is the class that is loaded under that name: classes come out of the method area and
stay there.
-/

namespace Jvm

open MethodArea (Evolves)
open Effect (bind_eq_ok)

/-! ### Classes that are found -/

/-- The class is the one that is loaded under its name. -/
def MethodArea.Resident (a : MethodArea) (c : Class) : Prop := a.class? c.name = some c

theorem MethodArea.resident_of_class? {a : MethodArea} {name : String} {c : Class}
    (h : a.class? name = some c) : a.Resident c := by
  rw [Resident, name_of_class? h, h]

theorem Class.mem_lineage_self (c : Class) : c ∈ c.lineage := by
  obtain ⟨file, _ | ⟨parent, rest⟩⟩ := c <;> exact List.mem_cons_self

theorem Class.lineage_of_super? {c parent : Class} (h : c.super? = some parent) :
    c.lineage = c :: parent.lineage := by
  obtain ⟨file, _ | ⟨above, rest⟩⟩ := c
  · cases h
  · cases h
    rfl

theorem Class.mem_of_resolveMethod? {c k : Class} {name descriptor : String} {m : Method}
    (h : c.resolveMethod? name descriptor = some (k, m)) :
    k ∈ c.lineage ∧ k.file.method? name descriptor = some m := by
  obtain ⟨j, hj, hfound⟩ := List.exists_of_findSome?_eq_some h
  obtain ⟨m', hm', heq⟩ := Option.map_eq_some_iff.mp hfound
  cases heq
  exact ⟨hj, hm'⟩

namespace Loader

variable {l : Loader} {a b : MethodArea} {c : Class} {name descriptor : String}

theorem ensure_resident (h : l.ensure name a = (.ok c, b)) : b.Resident c :=
  MethodArea.resident_of_class? (ensure_class? h)

theorem ensureAll_resident {names : List String} {cs : List Class}
    (h : l.ensureAll names a = (.ok cs, b)) : ∀ i ∈ cs, b.Resident i := by
  induction names generalizing a cs with
  | nil =>
    cases h
    exact fun _ hi => by cases hi
  | cons name rest ih =>
    obtain ⟨i, a₁, hensure, hrest⟩ := bind_eq_ok.mp h
    obtain ⟨is, a₂, hall, hpure⟩ := bind_eq_ok.mp hrest
    cases hpure
    have hextended : a₁.Extended b :=
      ((l.preserves_extended a₁).ensureAll rest).apply (.refl a₁) hall
    exact List.forall_mem_cons.mpr ⟨hextended.class? (ensure_resident hensure), ih hall⟩

theorem resolveInterfaceMethod_resident {found : Class × Method} (ha : a.Linked)
    (hc : a.Resident c) (h : l.resolveInterfaceMethod c name descriptor a = (.ok found, b)) :
    b.Resident found.1 := by
  rw [resolveInterfaceMethod] at h
  cases hfound : c.resolveMethod? name descriptor with
  | some r =>
    rw [hfound] at h
    cases h
    exact ha.lineage hc (Class.mem_of_resolveMethod? hfound).1
  | none =>
    rw [hfound] at h
    obtain ⟨interfaces, a₁, hall, hchoice⟩ := bind_eq_ok.mp h
    generalize hdeclaring : (interfaces.filterMap fun i =>
      (i.file.method? name descriptor).map fun m => (i, m)) = declaring at hchoice
    rcases declaring with _ | ⟨declared, _ | ⟨other, more⟩⟩
    · cases hchoice
    · cases hchoice
      have hmem := hdeclaring ▸ List.mem_singleton_self found
      obtain ⟨i, hi, hm⟩ := List.mem_filterMap.mp hmem
      obtain ⟨m, -, rfl⟩ := Option.map_eq_some_iff.mp hm
      exact ensureAll_resident hall i hi
    · cases hchoice

end Loader

/-! ### Worlds and scenes -/

/-- The classes hang together, and instances are of loaded classes. -/
structure World.Settled (w : World) : Prop where
  linked : w.area.Linked
  instances : ∀ c ∈ w.heap.classes, w.area.Resident c

structure Scene.Settled (s : Scene) : Prop where
  world : s.world.Settled
  current : s.world.area.Resident s.frame.cls

def Invocation.Resident (a : MethodArea) (i : Invocation) : Prop :=
  ∀ found, i.callee.method? = some found → a.Resident found.1

def Step.Resident (a : MethodArea) : Step → Prop
  | .invoke i _ => i.Resident a
  | _ => True

variable {env : Environment}

theorem World.Settled.empty : World.empty.Settled where
  linked := .empty
  instances _ h := absurd h (by simp [World.empty, Heap.classes, Heap.empty])

theorem World.Settled.later {w v : World} (h : w.Settled) (hevolves : Evolves env w.area v.area)
    (hclasses : v.heap.classes = w.heap.classes) : v.Settled where
  linked := hevolves.linked h.linked
  instances c hc := hevolves.class? h.linked (h.instances c (hclasses ▸ hc))

theorem World.Settled.newInstance {w : World} {c : Class} (h : w.Settled)
    (hc : w.area.Resident c) : World.Settled { w with heap := (w.heap.newInstance c).2 } where
  linked := h.linked
  instances k hk := by
    simp only [Heap.classes, Heap.newInstance, Array.map_push, Array.mem_push] at hk
    rcases hk with hk | rfl
    · exact h.instances k hk
    · exact hc

theorem Scene.Settled.later {s t : Scene} (hs : s.Settled)
    (hevolves : Evolves env s.world.area t.world.area)
    (hclasses : t.world.heap.classes = s.world.heap.classes) (hcls : t.frame.cls = s.frame.cls) :
    t.Settled where
  world := hs.world.later hevolves hclasses
  current := by
    rw [hcls]
    exact hevolves.class? hs.world.linked hs.current

theorem Step.Callless.resident {a : MethodArea} {step : Step} (h : step.Callless) :
    step.Resident a := by
  cases step with
  | invoke i retry => cases h
  | _ => exact True.intro

theorem Environment.bind_resident {a : MethodArea} {cls : Class} {method : Method}
    {receiver : Option Value} {arguments : List Value} {parameters : List FieldType}
    {i : Invocation} (h : env.bind cls method receiver arguments parameters = .ok i)
    (hcls : a.Resident cls) : i.Resident a := by
  obtain ⟨callee, rfl, hmethod, -⟩ := bind_eq_ok h
  intro found hfound
  obtain rfl : (cls, method) = found := Option.some.inj (hmethod.symm.trans hfound)
  exact hcls

theorem Environment.initializer?_resident {a : MethodArea} {k : Class} {i : Invocation}
    (h : env.initializer? k = some i) (hk : a.Resident k) : i.Resident a := by
  rintro ⟨cls, m⟩ hfound
  rwa [env.initializer?_method h hfound]

/-! ### Calls -/

namespace Exec

open Scene (onArea)

variable {s t : Scene} {r : MemberRef} {c : Class} {step : Step}

/-- A native that is called in place of a method belongs to no class. -/
theorem nativeCall?_cases {hasReceiver : Bool} {step? : Option Step}
    (h : nativeCall? env r hasReceiver s = (.ok step?, t)) :
    (step? = none ∧ env.natives.find? r = none ∧ t = s) ∨
      ∃ step, step? = some step ∧ ∀ a, step.Resident a := by
  unfold nativeCall? at h
  cases hrun : env.natives.find? r with
  | none =>
    rw [hrun] at h
    cases h
    exact .inl ⟨rfl, rfl, rfl⟩
  | some run =>
    rw [hrun] at h
    obtain ⟨⟨arguments, parameters⟩, u, -, hreceiver⟩ := bind_eq_ok.mp h
    dsimp only at hreceiver
    split at hreceiver <;>
    · obtain ⟨receiver, v, -, hcall⟩ := bind_eq_ok.mp hreceiver
      cases hcall
      exact .inr ⟨_, rfl, fun a found hfound => by cases hfound⟩

theorem call_resident {cls : Class} {method : Method} {target? : Option Reference}
    {arguments : List Value} {parameters : List FieldType}
    (h : call env cls method target? arguments parameters s = (.ok step, t))
    (hcls : s.world.area.Resident cls) : step.Resident t.world.area := by
  obtain ⟨i, u, hbind, hcall⟩ := bind_eq_ok.mp h
  obtain ⟨hbound, rfl⟩ := Effect.ofExcept_eq_ok.mp hbind
  cases hcall
  exact Environment.bind_resident hbound hcls

theorem settled_of_onArea {α : Type} {m : Effect MethodArea α} {result : Except Fault α}
    (hs : s.world.Settled) (hm : Effect.Keeps (Evolves env s.world.area) m)
    (h : onArea m s = (result, t)) :
    t.world.Settled ∧ m s.world.area = (result, t.world.area) := by
  cases h
  have hevolves : Evolves env s.world.area (m s.world.area).2 := hm.apply (.refl env _) rfl
  exact ⟨hs.later hevolves rfl, rfl⟩

theorem settled_ensure {name : String} (hs : s.world.Settled)
    (h : onArea (env.loader.ensure name) s = (.ok c, t)) :
    t.world.Settled ∧ t.world.area.Resident c := by
  have hkeeps := (MethodArea.preserves_evolves env s.world.area).ensure name
  obtain ⟨ht, hensure⟩ := settled_of_onArea hs hkeeps h
  exact ⟨ht, Loader.ensure_resident hensure⟩

theorem settled_resolveInterfaceMethod {name descriptor : String} {found : Class × Method}
    (hs : s.world.Settled) (hc : s.world.area.Resident c)
    (h : onArea (env.loader.resolveInterfaceMethod c name descriptor) s = (.ok found, t)) :
    t.world.Settled ∧ t.world.area.Resident found.1 := by
  have hkeeps := (MethodArea.preserves_evolves env s.world.area).resolveInterfaceMethod c name
    descriptor
  obtain ⟨ht, hfound⟩ := settled_of_onArea hs hkeeps h
  exact ⟨ht, Loader.resolveInterfaceMethod_resident hs.linked hc hfound⟩

theorem settled_classOf {target : Reference} (hs : s.world.Settled)
    (h : classOf env target s = (.ok c, t)) : t.world.Settled ∧ t.world.area.Resident c := by
  obtain ⟨heap, u, hheap, hclass⟩ := bind_eq_ok.mp h
  cases hheap
  cases target with
  | object n =>
    cases hfound : s.world.heap.instance? (.object n) with
    | none =>
      simp only [hfound] at hclass
      cases hclass
    | some i =>
      simp only [hfound] at hclass
      cases hclass
      have hmem : i ∈ s.world.heap.instances := Array.mem_of_getElem? hfound
      exact ⟨hs, hs.instances _ (Array.mem_map_of_mem hmem)⟩
  | array n | string content origin => exact settled_ensure hs hclass

theorem specialStart_resident {a : MethodArea} {current : Class} (ha : a.Linked)
    (hcurrent : a.Resident current) (hc : a.Resident c) :
    a.Resident (specialStart current c r) := by
  unfold specialStart
  split
  · rename_i parent hparent
    split
    · refine ha.lineage hcurrent ?_
      rw [Class.lineage_of_super? hparent]
      exact List.mem_cons_of_mem _ parent.mem_lineage_self
    · exact hc
  · exact hc

theorem settled_resolveSpecial {isInterface : Bool} {found : Class × Method}
    (hs : s.world.Settled) (hc : s.world.area.Resident c)
    (h : resolveSpecial env c r isInterface s = (.ok found, t)) :
    t.world.Settled ∧ t.world.area.Resident found.1 := by
  unfold resolveSpecial at h
  cases hfound : c.resolveMethod? r.name r.descriptor with
  | some declared =>
    rw [hfound] at h
    cases h
    exact ⟨hs, hs.linked.lineage hc (Class.mem_of_resolveMethod? hfound).1⟩
  | none =>
    rw [hfound] at h
    dsimp only at h
    split at h
    · exact settled_resolveInterfaceMethod hs hc h
    · cases h

theorem ensureOrNative_resident {m : Class → Exec Step} (hs : s.world.Settled)
    (h : ensureOrNative env r m s = (.ok step, t))
    (hm : ∀ c u, u.world.Settled → u.world.area.Resident c → m c u = (.ok step, t) →
      step.Resident t.world.area) : step.Resident t.world.area := by
  rcases ensureOrNative_eq_ok h with ⟨c, u, hensure, hrest⟩ | ⟨f, u, -, hnative⟩
  · obtain ⟨hu, hc⟩ := settled_ensure hs hensure
    exact hm c u hu hc hrest
  · rcases nativeCall?_cases hnative with ⟨hnone, -⟩ | ⟨called, hcalled, hresident⟩
    · cases hnone
    · cases hcalled
      exact hresident _

theorem operands_resident {decl : Class} {m : Method} (hdecl : s.world.area.Resident decl)
    (h : (popArguments r.descriptor >>= fun out => popReceiver r >>= fun target =>
      call env decl m (some target) out.1 out.2) s = (.ok step, t)) :
    step.Resident t.world.area := by
  obtain ⟨operands, u, harguments, hrest⟩ := bind_eq_ok.mp h
  obtain ⟨target, v, hreceiver, hcall⟩ := bind_eq_ok.mp hrest
  refine call_resident hcall ?_
  rwa [world_popReceiver hreceiver, world_popArguments harguments]

theorem invokeStatic_resident {index : UInt16}
    (hnative : ClassUse.hasNative env s.frame.pool index = true)
    (h : invokeStatic env index s = (.ok step, t)) : step.Resident t.world.area := by
  rw [invokeStatic, ClassUse.pool_bind] at h
  obtain ⟨⟨r, isInterface⟩, s₁, hlookup, hrest⟩ := bind_eq_ok.mp h
  obtain ⟨href, rfl⟩ := Effect.ofExcept_eq_ok.mp hlookup
  obtain ⟨step?, s₂, hcall, hchoice⟩ := bind_eq_ok.mp hrest
  rcases nativeCall?_cases hcall with ⟨-, hnone, -⟩ | ⟨called, rfl, hresident⟩
  · rw [ClassUse.hasNative, href] at hnative
    simp [hnone] at hnative
  · cases hchoice
    exact hresident _

theorem invokeSpecial_resident {index : UInt16} (hs : s.Settled)
    (h : invokeSpecial env index s = (.ok step, t)) : step.Resident t.world.area := by
  rw [invokeSpecial, ClassUse.pool_bind] at h
  obtain ⟨⟨r, isInterface⟩, s₁, hlookup, hnative⟩ := bind_eq_ok.mp h
  obtain ⟨-, rfl⟩ := Effect.ofExcept_eq_ok.mp hlookup
  obtain ⟨step?, s₂, hstep, hrest⟩ := Effect.ite_bind_eq_ok.mp hnative
  have hcases : (step? = none ∧ s₂ = s₁) ∨
      ∃ called, step? = some called ∧ ∀ a, called.Resident a := by
    split at hstep
    · exact (nativeCall?_cases hstep).imp_left fun hnone => ⟨hnone.1, hnone.2.2⟩
    · cases hstep
      exact .inl ⟨rfl, rfl⟩
  rcases hcases with ⟨rfl, rfl⟩ | ⟨called, rfl, hresident⟩
  · obtain ⟨c, s₃, hensure, hread⟩ := bind_eq_ok.mp hrest
    obtain ⟨scene, s₄, hscene, hresolve⟩ := bind_eq_ok.mp hread
    cases hscene
    obtain ⟨⟨decl, m⟩, s₅, hfound, hcheck⟩ := bind_eq_ok.mp hresolve
    obtain ⟨hs₃, hc⟩ := settled_ensure hs.world hensure
    have hcurrent : s₃.world.area.Resident s₃.frame.cls := by
      obtain rfl : (onArea _ s₂).2 = s₃ := congrArg Prod.snd hensure
      exact (env.loader.ensure_extended _ _).class? hs.current
    have hstart := specialStart_resident (r := r) hs₃.linked hcurrent hc
    obtain ⟨-, hdecl⟩ := settled_resolveSpecial hs₃ hstart hfound
    dsimp only at hcheck
    split at hcheck
    · cases hcheck
    · split at hcheck
      · cases hcheck
      · exact operands_resident hdecl hcheck
  · cases hrest
    exact hresident _

theorem invokeVirtual_resident {index : UInt16} (hs : s.world.Settled)
    (h : invokeVirtual env index s = (.ok step, t)) : step.Resident t.world.area := by
  rw [invokeVirtual, ClassUse.pool_bind] at h
  obtain ⟨r, s₁, hlookup, hensure⟩ := bind_eq_ok.mp h
  obtain ⟨-, rfl⟩ := Effect.ofExcept_eq_ok.mp hlookup
  refine ensureOrNative_resident hs hensure fun c u hu hc hrest => ?_
  obtain ⟨⟨decl, m⟩, v, hbase, hcheck⟩ := bind_eq_ok.mp hrest
  obtain ⟨hv, hdecl⟩ := settled_resolveInterfaceMethod hu hc hbase
  dsimp only at hcheck
  split at hcheck
  · cases hcheck
  · obtain ⟨operands, w, harguments, hreceiver⟩ := bind_eq_ok.mp hcheck
    obtain ⟨target, x, htarget, hselect⟩ := bind_eq_ok.mp hreceiver
    have hworld : x.world = v.world :=
      (world_popReceiver htarget).trans (world_popArguments harguments)
    rw [← hworld] at hv hdecl
    split at hselect
    · obtain ⟨found, y, hfound, hcall⟩ := bind_eq_ok.mp hselect
      cases hfound
      exact call_resident hcall hdecl
    · obtain ⟨rc, y, hclassOf, hfind⟩ := bind_eq_ok.mp hselect
      obtain ⟨found, z, hfound, hcall⟩ := bind_eq_ok.mp hfind
      obtain ⟨hy, hrc⟩ := settled_classOf hv hclassOf
      exact call_resident hcall (settled_resolveInterfaceMethod hy hrc hfound).2

theorem invokeInterface_resident {index : UInt16} (hs : s.world.Settled)
    (h : invokeInterface env index s = (.ok step, t)) : step.Resident t.world.area := by
  rw [invokeInterface, ClassUse.pool_bind] at h
  obtain ⟨r, s₁, hlookup, hensure⟩ := bind_eq_ok.mp h
  obtain ⟨-, rfl⟩ := Effect.ofExcept_eq_ok.mp hlookup
  refine ensureOrNative_resident hs hensure fun c u hu hc hrest => ?_
  dsimp only at hrest
  split at hrest
  · cases hrest
  · obtain ⟨base, v, hbase, harguments⟩ := bind_eq_ok.mp hrest
    obtain ⟨operands, w, hoperands, hreceiver⟩ := bind_eq_ok.mp harguments
    obtain ⟨target, x, htarget, hclassOf⟩ := bind_eq_ok.mp hreceiver
    obtain ⟨rc, y, hclass, hfind⟩ := bind_eq_ok.mp hclassOf
    obtain ⟨⟨decl, m⟩, z, hfound, hcheck⟩ := bind_eq_ok.mp hfind
    obtain ⟨hv, -⟩ := settled_resolveInterfaceMethod hu hc hbase
    rw [← world_popArguments hoperands, ← world_popReceiver htarget] at hv
    obtain ⟨hy, hrc⟩ := settled_classOf hv hclass
    dsimp only at hcheck
    split at hcheck
    · cases hcheck
    · exact call_resident hcheck (settled_resolveInterfaceMethod hy hrc hfound).2

end Exec

/-! ### Instructions -/

theorem ClassUse.perform_settled {x : ClassUse} {s t : Scene} {r : Except Fault Step}
    (hs : s.world.Settled) (hx : s.world.area.Resident x.subject)
    (h : x.perform env s = (r, t)) :
    t.world.Settled ∧ ∀ step, r = .ok step → step.Resident t.world.area := by
  have hplain : ∀ {m : Exec Step} {P : Step → Prop},
      Effect.Yields (Scene.Loading (· = s.world.area) s.world.heap.classes) m P →
      m s = (r, t) → t.world.Settled ∧ ∀ step, r = .ok step → P step := by
    intro m P hm hresult
    obtain ⟨⟨harea, hclasses⟩, hstep⟩ := hm s ⟨rfl, rfl⟩
    rw [hresult] at harea hclasses hstep
    have hevolves : Evolves env s.world.area t.world.area := by
      rw [show t.world.area = s.world.area from harea]
      exact .refl env _
    exact ⟨hs.later hevolves hclasses, hstep⟩
  cases x with
  | read decl r =>
    obtain ⟨ht, hstep⟩ := hplain (Effect.Keeps.read.bind fun _ =>
      (Effect.Keeps.ofExcept _).bind fun _ => Scene.Loading.yields_pushNext _) h
    exact ⟨ht, fun step hr => (hstep step hr).resident⟩
  | write decl r =>
    simp only [perform, Effect.bind_apply, Scene.onFrame, Effect.zoom] at h
    rcases hpop : Frame.popKind (Kind.ofDescriptor? r.descriptor) s.frame with ⟨f | v, frame⟩
    · simp only [hpop] at h
      cases h
      exact ⟨hs, Effect.of_error⟩
    · simp only [hpop, Effect.read, Effect.ofExcept] at h
      cases hset : s.world.area.setStatic decl r.name r.descriptor v with
      | error f =>
        simp only [hset] at h
        cases h
        exact ⟨hs, Effect.of_error⟩
      | ok area =>
        simp only [hset] at h
        cases h
        have hevolves : Evolves env s.world.area area := .step (.refl env _) (.write hset)
        refine ⟨hs.later hevolves rfl, fun step hr => ?_⟩
        cases hr
        exact True.intro
  | allocate c =>
    cases h
    refine ⟨hs.newInstance hx, fun step hr => ?_⟩
    cases hr
    exact True.intro
  | bind decl m r =>
    obtain ⟨ht, -⟩ := hplain ((Scene.Loading.keeps_popArguments _).bind fun _ =>
      Scene.Loading.keeps_call _ _ _ _ _) h
    refine ⟨ht, fun step hr => ?_⟩
    subst hr
    obtain ⟨operands, u, hoperands, hcall⟩ := bind_eq_ok.mp h
    refine Exec.call_resident hcall ?_
    rwa [Exec.world_popArguments hoperands]

theorem Environment.call_resident {depth : Nat} {i : Instruction} {s t : Scene} {step : Step}
    (hs : s.Settled) (hi : ClassUse.find? env s.frame.pool i = none)
    (hcall : i.opcode ∈ Opcode.calls) (h : env.execute depth i s = (.ok step, t)) :
    step.Resident t.world.area := by
  simp only [Opcode.calls, List.mem_cons, List.not_mem_nil, or_false] at hcall
  unfold execute at h
  unfold ClassUse.find? at hi
  rcases hcall with hop | hop | hop | hop <;> simp only [hop] at h hi
  · refine Exec.invokeStatic_resident ?_ h
    simpa using hi
  · exact Exec.invokeSpecial_resident hs h
  · exact Exec.invokeVirtual_resident hs.world h
  · exact Exec.invokeInterface_resident hs.world h

/-- Executing an instruction keeps frame and instances with their loaded classes, and a method that
it calls is one of a loaded class. -/
theorem Environment.execute_settled {depth : Nat} {i : Instruction} {s t : Scene}
    {r : Except Fault Step} (hs : s.Settled) (h : env.execute depth i s = (r, t)) :
    t.Settled ∧ ∀ step, r = .ok step → step.Resident t.world.area := by
  have ha := hs.world.linked
  obtain ⟨hevolves, -⟩ := env.execute_evolves ha h
  have hcls : t.frame.cls = s.frame.cls := by
    have howner := env.owner_execute depth i s
    rw [h] at howner
    exact congrArg Prod.fst howner
  have hcurrent : t.world.area.Resident t.frame.cls := by
    rw [hcls]
    exact hevolves.class? ha hs.current
  cases hfind? : ClassUse.find? env s.frame.pool i with
  | none =>
    have hkeeps := MethodArea.preserves_evolves env s.world.area
    obtain ⟨hloads, hcalls⟩ := execute_loads hkeeps hfind? (.refl env _) depth
    rw [h] at hloads hcalls
    refine ⟨⟨hs.world.later hevolves hloads.classes, hcurrent⟩, fun step hr => ?_⟩
    subst hr
    rcases hcalls with hcall | hcallless
    · exact call_resident hs hfind? hcall h
    · exact (hcallless step rfl).resident
  | some find =>
    have hfound : ∀ {x b}, find s.world.area = (.ok x, b) →
        Evolves env s.world.area b ∧ b.Resident x.subject := by
      intro x b hfind
      have hkeeps := ClassUse.keeps_of_find? hfind? (MethodArea.preserves_evolves env s.world.area)
      exact ⟨hkeeps.apply (.refl env _) hfind, ClassUse.class?_of_find? hfind? ha hfind⟩
    have houtcome := ClassUse.execute_outcome hfind? ha depth
    rw [h] at houtcome
    generalize hresult : (r, t) = result at houtcome
    cases houtcome with
    | unresolved hfind hstatics =>
      cases hresult
      exact ⟨⟨hs.world.later hevolves rfl, hcurrent⟩, Effect.of_error⟩
    | @pending x b b' j hfind hnext hstatics =>
      cases hresult
      refine ⟨⟨hs.world.later hevolves rfl, hcurrent⟩, fun step hr => ?_⟩
      cases hr
      obtain ⟨hb, hx⟩ := hfound hfind
      have hop : MethodArea.Operation env b b' := .of_initStep hx hnext
      obtain ⟨k, hk, -, -, hinit⟩ := env.initStep_some (hb.linked ha) hx hnext
      exact initializer?_resident hinit (hop.class? (hb.linked ha) ((hb.linked ha).lineage hx hk))
    | @performed x b b' hfind hdone hstatics _ =>
      obtain ⟨hb, hx⟩ := hfound hfind
      have hop : MethodArea.Operation env b b' := .of_initStep hx hdone
      have hstarted : World.Settled (s.withArea b').world := hs.world.later (hb.step hop) rfl
      obtain ⟨ht, hstep⟩ :=
        x.perform_settled hstarted (hop.class? (hb.linked ha) hx) hresult.symm
      exact ⟨⟨ht, hcurrent⟩, hstep⟩

/-! ### Natives -/

/-- The registered natives keep instances with their loaded classes. -/
def Environment.NativesSettle (env : Environment) : Prop :=
  ∀ r run, env.natives.find? r = some run → ∀ site arguments (w : World), w.Settled →
    (run site arguments w).2.Settled

theorem Environment.nativesSettle_standard {env : Environment} (h : env.natives = .standard) :
    env.NativesSettle := by
  intro r run hrun site arguments w hw
  rw [h] at hrun
  rcases NativeTable.standard_cases hrun with rfl | rfl | rfl | rfl
  · exact hw
  · unfold Native.getClass
    split <;> exact hw
  · unfold Native.hashCode
    split <;> exact hw
  · have hkeeps : Effect.Keeps World.Settled (Native.fileDescriptorInit site arguments) := by
      refine Effect.Yields.read_bind fun v hv => ?_
      cases hclass : v.area.class? Native.fileDescriptorName with
      | none => exact ⟨hv, fun _ _ => True.intro⟩
      | some c =>
        have hdescriptors : Effect.Keeps (fun v : World => v.Settled ∧ v.area.Resident c)
            (do
              Native.standardDescriptors c 0 ["in", "out", "err"]
              return Value.none) := by
          refine (Native.keeps_standardDescriptors ?_ ?_ ?_ 0 _).bind fun _ => .pure True.intro
          · exact fun v ⟨hv, hc⟩ => ⟨hv.newInstance hc, hc⟩
          · intro v heap r key value hset ⟨hv, hc⟩
            refine ⟨⟨hv.linked, ?_⟩, hc⟩
            rw [Heap.classes_setField? hset]
            exact hv.instances
          · intro v area name descriptor value hset ⟨hv, hc⟩
            have hop : MethodArea.Operation env v.area area := .write hset
            exact ⟨hv.later (.step (.refl env _) hop) rfl, hop.class? hv.linked hc⟩
        have hresident := MethodArea.resident_of_class? hclass
        exact ⟨(hdescriptors v ⟨hv, hresident⟩).1.1, fun _ _ => True.intro⟩
    exact (hkeeps w hw).1

/-! ### Threads -/

namespace Thread

def classes (t : Thread) : List Class := t.frames.map Frame.cls

structure Settled (t : Thread) : Prop where
  world : t.world.Settled
  frames : ∀ c ∈ t.classes, t.world.area.Resident c

variable {t u : Thread}

theorem Settled.later (ht : t.Settled) (hevolves : Evolves env t.world.area u.world.area)
    (hu : u.world.Settled) (hclasses : u.classes ⊆ t.classes) : u.Settled where
  world := hu
  frames c hc := hevolves.class? ht.world.linked (ht.frames c (hclasses hc))

theorem Settled.scene {f : Frame} {below : List Frame} {w : World}
    (ht : Settled ⟨f :: below, w⟩) : Scene.Settled ⟨f, w⟩ :=
  ⟨ht.world, ht.frames _ List.mem_cons_self⟩

theorem Settled.onArea {α : Type} {m : Effect MethodArea α} {r : Except Fault α} {w : World}
    (ht : t.Settled) (hm : Evolves env t.world.area (m t.world.area).2)
    (h : World.onArea m t.world = (r, w)) : Settled { t with world := w } := by
  cases h
  exact ht.later hm (ht.world.later hm rfl) (List.Subset.refl _)

theorem push_settled {cls : Class} {method : Method} {i : Invocation} (ht : t.Settled)
    (hcls : t.world.area.Resident cls) (h : t.push env cls method i = .ok u) : u.Settled := by
  obtain ⟨-, f, hmake, rfl⟩ := push_eq_ok_iff.mp h
  have howner : f.cls = cls := congrArg Prod.fst (Frame.owner_make hmake)
  refine ⟨⟨ht.world.linked, ht.world.instances⟩, List.forall_mem_cons.mpr ⟨?_, ht.frames⟩⟩
  rwa [howner]

theorem classes_unwind (t : Thread) (base : Nat) : (t.unwind base).classes ⊆ t.classes :=
  List.map_subset _ (List.drop_subset _ _)

theorem classes_received (f : Frame) (value : Value) (below : List Frame) (w v : World) :
    classes ⟨f.received value :: below, w⟩ = classes ⟨f :: below, v⟩ := by
  have howner : (f.received value).cls = f.cls := congrArg Prod.fst (f.owner_received value)
  simp [classes, howner]

theorem classes_progress (m : Move) (base : Nat) (below : List Frame) :
    (m.progress base below).thread.classes ⊆ (m.thread below).classes := by
  cases m with
  | stay | enter => exact List.Subset.refl _
  | abort f fault world => exact classes_unwind _ base
  | leave value world =>
    rw [Move.progress, returning.eq_def]
    split
    · exact List.Subset.refl _
    · split
      · exact List.Subset.refl _
      · rename_i caller rest _
        exact (classes_received caller value rest world world) ▸ List.Subset.refl _

section

variable (hn : env.NativesEvolve) (hr : env.NativesSettle)

include hn hr

theorem native_settled {r : MemberRef} {run : Native} {site : CallSite} {arguments : List Value}
    {result : Except Fault Value} {w : World} (ht : t.Settled)
    (hrun : env.natives.find? r = some run) (hcall : run site arguments t.world = (result, w)) :
    Settled { t with world := w } := by
  have hevolves := hn r run hrun site arguments t.world ht.world.linked
  have hw := hr r run hrun site arguments t.world ht.world
  rw [hcall] at hevolves hw
  exact ht.later hevolves hw (List.Subset.refl _)

theorem follows_settled {i : Instruction} {f : Frame} {below : List Frame} {w : World}
    {outcome : Step} {m : Move} (ht : Settled ⟨f :: below, w⟩) (hknown : outcome.Known env)
    (hresident : outcome.Resident w.area) (h : Follows env i f below w outcome m) :
    (m.thread below).Settled := by
  have hwaiting : ∀ retry, Settled ⟨waiting f i retry :: below, w⟩ := fun _ => ⟨ht.world, ht.frames⟩
  cases h with
  | next | jump | badJump => exact ht
  | ret => exact ⟨ht.world, fun c hc => ht.frames c (List.mem_cons_of_mem _ hc)⟩
  | badCall => exact hwaiting _
  | @native j retry run method? value world' hcallee hrun =>
    obtain ⟨r, hfind⟩ := hknown _ _ hcallee
    obtain ⟨hw, hframes⟩ := native_settled hn hr (hwaiting retry) hfind hrun
    refine ⟨hw, ?_⟩
    show ∀ c ∈ classes ⟨(waiting f i retry).received value :: below, world'⟩, world'.area.Resident c
    rwa [classes_received (v := world')]
  | badNative hcallee hrun =>
    obtain ⟨r, hfind⟩ := hknown _ _ hcallee
    exact native_settled hn hr (hwaiting _) hfind hrun
  | @call j retry cls method callee hcallee hroom hmake =>
    have hcls : w.area.Resident cls := hresident (cls, method) (congrArg Callee.method? hcallee)
    exact push_settled (hwaiting retry) hcls (push_eq_ok_iff.mpr ⟨hroom, callee, hmake, rfl⟩)

theorem step_settled (ht : t.Settled) (base pc : Nat) : (step env base t pc).thread.Settled := by
  obtain ⟨_ | ⟨f, below⟩, w⟩ := t
  · exact ht
  obtain ⟨m, htakes, hstep⟩ := exists_takes env f below w pc
  have hmove : (m.thread below).Settled := by
    -- The instruction leaves the frames below alone, and their classes stay loaded.
    have hafter : ∀ {i r s}, env.execute (below.length + 1) i ⟨f, w⟩ = (r, s) →
        Settled ⟨s.frame :: below, s.world⟩ := by
      intro i r s hexec
      obtain ⟨hevolves, -⟩ := env.execute_evolves ht.world.linked hexec
      obtain ⟨hs, -⟩ := env.execute_settled ht.scene hexec
      refine ⟨hs.world, List.forall_mem_cons.mpr ⟨hs.current, fun c hc => ?_⟩⟩
      exact hevolves.class? ht.world.linked (ht.frames c (List.mem_cons_of_mem _ hc))
    cases htakes with
    | offEnd hpc => exact ⟨ht.world, fun c hc => ht.frames c (List.mem_cons_of_mem _ hc)⟩
    | unknown hpc hat => exact ht
    | fails hpc hat hexec => exact hafter hexec
    | follows hpc hat hexec hfollows =>
      obtain ⟨-, hknown⟩ := env.execute_evolves ht.world.linked hexec
      have hresident := (env.execute_settled ht.scene hexec).2
      exact follows_settled hn hr (hafter hexec) (hknown _ rfl) (hresident _ rfl) hfollows
  rw [hstep]
  have hworld := progress_world m base below
  refine ⟨hworld ▸ hmove.world, fun c hc => ?_⟩
  rw [hworld]
  exact hmove.frames c (classes_progress m base below hc)

theorem loop_settled {result : Except Fault Value} {base : Nat} (fuel : Nat) {pc : Nat}
    (ht : t.Settled) (h : loop env base fuel t pc = some (result, u)) : u.Settled := by
  induction fuel generalizing t pc with
  | zero => cases h
  | succ fuel ih =>
    have hkept := step_settled hn hr ht base pc
    rw [loop] at h
    cases hstep : step env base t pc with
    | running v pc' =>
      rw [hstep] at hkept h
      exact ih hkept h
    | finished result v =>
      rw [hstep] at hkept h
      cases h
      exact hkept

theorem execute_settled {result : Except Fault Value} {fuel : Nat} {i : Invocation}
    (ht : t.Settled) (hknown : i.Known env) (hresident : i.Resident t.world.area)
    (h : execute env fuel i t = some (result, u)) : u.Settled := by
  unfold execute at h
  cases hcallee : i.callee with
  | native run method? =>
    rw [hcallee] at h
    obtain ⟨r, hrun⟩ := hknown run method? hcallee
    have hcall : (callNative run i t).2.Settled := by
      unfold callNative
      split <;> rename_i hresult <;> exact native_settled hn hr ht hrun hresult
    rwa [Option.some.inj h] at hcall
  | body cls method =>
    rw [hcallee] at h
    cases hpush : t.push env cls method i with
    | error fault =>
      simp only [hpush] at h
      cases h
      exact ht
    | ok entered =>
      simp only [hpush] at h
      have hcls := hresident (cls, method) (congrArg Callee.method? hcallee)
      exact loop_settled hn hr fuel (push_settled ht hcls hpush) h

omit hn hr in
theorem claim_settled {c : Class} {r : Except Fault (Option Invocation)} {w : World}
    (ht : t.Settled) (hc : t.world.area.Resident c)
    (h : World.onArea (env.initStep c) t.world = (r, w)) :
    Settled { t with world := w } ∧ w.area.Resident c ∧
      ∀ i, r = .ok (some i) → i.Known env ∧ i.Resident w.area := by
  have ha := ht.world.linked
  have hnext := World.onArea_eq h
  have hop : MethodArea.Operation env t.world.area w.area := .of_initStep hc hnext
  have hevolves : Evolves env t.world.area (env.initStep c t.world.area).2 := by
    rw [hnext]
    exact .step (.refl env _) hop
  refine ⟨ht.onArea hevolves h, hop.class? ha hc, ?_⟩
  rintro i rfl
  obtain ⟨k, hk, -, -, hinit⟩ := env.initStep_some ha hc hnext
  exact ⟨Environment.initializer?_known hinit,
    Environment.initializer?_resident hinit (hop.class? ha (ha.lineage hc hk))⟩

theorem initializeWithin_settled {result : Except Fault Unit} {fuel : Nat} {c : Class} (n : Nat)
    (ht : t.Settled) (hc : t.world.area.Resident c)
    (h : initializeWithin env fuel c n t = some (result, u)) : u.Settled := by
  induction n generalizing t with
  | zero =>
    cases h
    exact ht
  | succ n ih =>
    rw [initializeWithin] at h
    split at h
    · rename_i hclaim
      cases h
      exact (claim_settled ht hc hclaim).1
    · rename_i hclaim
      cases h
      exact (claim_settled ht hc hclaim).1
    · rename_i i world hclaim
      obtain ⟨hclaimed, hc', hcall⟩ := claim_settled ht hc hclaim
      obtain ⟨hknown, hresident⟩ := hcall i rfl
      split at h
      · cases h
      · rename_i hexec
        cases h
        exact execute_settled hn hr hclaimed hknown hresident hexec
      · rename_i hexec
        have hevolves := execute_evolves hn hclaimed.world.linked hknown hexec
        refine ih (execute_settled hn hr hclaimed hknown hresident hexec) ?_ h
        exact hevolves.class? hclaimed.world.linked hc'

omit hn hr in
theorem load_settled {name : String} {r : Except Fault Class} {w : World} (ht : t.Settled)
    (h : World.onArea (env.loader.ensure name) t.world = (r, w)) :
    Settled { t with world := w } ∧ ∀ c, r = .ok c → w.area.Resident c := by
  refine ⟨ht.onArea (.step (.refl env _) (.load name)) h, ?_⟩
  rintro c rfl
  exact Loader.ensure_resident (World.onArea_eq h)

omit hn hr in
theorem entryCall_resident {a : MethodArea} {c : Class} {r : MemberRef} {arguments : List Value}
    {i : Invocation} (hc : a.Resident c) (h : entryCall env c r arguments = .ok i) :
    i.Resident a := by
  unfold entryCall at h
  split at h
  · cases h
  · rename_i m _
    split at h
    · cases h
    · cases htype : m.type with
      | error f =>
        rw [htype] at h
        cases h
      | ok d =>
        rw [htype] at h
        exact Environment.bind_resident h hc

theorem run_settled {result : Except Fault Value} {fuel : Nat} {r : MemberRef}
    {arguments : List Value} (ht : t.Settled)
    (h : run env fuel r arguments t = some (result, u)) : u.Settled := by
  unfold run at h
  split at h
  · rename_i hload
    cases h
    exact (load_settled ht hload).1
  · rename_i c w hload
    obtain ⟨hloaded, hclass⟩ := load_settled ht hload
    have hc := hclass c rfl
    split at h
    · cases h
    · rename_i hinit
      cases h
      exact initializeWithin_settled hn hr _ hloaded hc hinit
    · rename_i v hinit
      have hv := initializeWithin_settled hn hr _ hloaded hc hinit
      split at h
      · cases h
        exact hv
      · rename_i i hentry
        have hevolves := initializeWithin_evolves hn hloaded.world.linked hc hinit
        have hcv := hevolves.class? hloaded.world.linked hc
        exact execute_settled hn hr hv (Invariant.entryCall_known hentry)
          (entryCall_resident hcv hentry) h

/-! ### States of a run -/

theorem loopState_settled {i : Invocation} {pc : Nat} (ht : t.Settled)
    (hresident : i.Resident t.world.area) (h : LoopState env i t u pc) : u.Settled := by
  induction h with
  | @start cls method u hcallee hpush =>
    exact push_settled ht (hresident (cls, method) (congrArg Callee.method? hcallee)) hpush
  | @step u v pc pc' h hstep ih =>
    have hkept := step_settled hn hr ih t.depth pc
    rw [hstep] at hkept
    exact hkept

theorem initializerCall_settled {c : Class} {i : Invocation} (ht : t.Settled)
    (hc : t.world.area.Resident c) (h : InitializerCall env c t i u) :
    u.Settled ∧ i.Resident u.world.area := by
  induction h with
  | first hclaim =>
    obtain ⟨hclaimed, -, hcall⟩ := claim_settled ht hc hclaim
    exact ⟨hclaimed, (hcall _ rfl).2⟩
  | later hclaim hexec h ih =>
    obtain ⟨hclaimed, hc', hcall⟩ := claim_settled ht hc hclaim
    obtain ⟨hknown, hresident⟩ := hcall _ rfl
    have hevolves := execute_evolves hn hclaimed.world.linked hknown hexec
    exact ih (execute_settled hn hr hclaimed hknown hresident hexec)
      (hevolves.class? hclaimed.world.linked hc')

theorem runCall_settled {r : MemberRef} {arguments : List Value} {i : Invocation} (ht : t.Settled)
    (h : RunCall env r arguments t i u) : u.Settled ∧ i.Resident u.world.area := by
  cases h with
  | initializer hload h =>
    obtain ⟨hloaded, hclass⟩ := load_settled ht hload
    exact initializerCall_settled hn hr hloaded (hclass _ rfl) h
  | entry hload hinit hentry =>
    obtain ⟨hloaded, hclass⟩ := load_settled ht hload
    have hc := hclass _ rfl
    have hevolves := initializeWithin_evolves hn hloaded.world.linked hc hinit
    exact ⟨initializeWithin_settled hn hr _ hloaded hc hinit,
      entryCall_resident (hevolves.class? hloaded.world.linked hc) hentry⟩

theorem runState_settled {r : MemberRef} {arguments : List Value} (ht : t.Settled)
    (h : RunState env r arguments t u) : u.Settled := by
  cases h with
  | idle => exact ht
  | loaded hload => exact (load_settled ht hload).1
  | calling hcall => exact (runCall_settled hn hr ht hcall).1
  | looping hcall hloop =>
    obtain ⟨hcalled, hresident⟩ := runCall_settled hn hr ht hcall
    exact loopState_settled hn hr hcalled hresident hloop
  | ended hrun => exact run_settled hn hr ht hrun

end

end Thread

namespace Runtime

/-- The runtimes that runs can lead to, whatever came of these runs. Between runs the host may load
classes, store into static fields and allocate instances of loaded classes. -/
inductive Arises (env : Environment) : Runtime → Prop where
  | fresh : Arises env .empty
  | host {rt rt' : Runtime} (h : Arises env rt)
    (hevolves : Evolves env rt.world.area rt'.world.area)
    (hinstances : ∀ c ∈ rt'.world.heap.classes, rt'.world.area.Resident c) : Arises env rt'
  | run {rt rt' : Runtime} {fuel : Nat} {r : MemberRef} {arguments : List Value}
    {result : Except Fault Value} (h : Arises env rt)
    (hrun : rt.run env fuel r arguments = some (result, rt')) : Arises env rt'

theorem settled_idle {w : World} (hw : w.Settled) : Thread.Settled ⟨[], w⟩ :=
  ⟨hw, fun _ hc => by cases hc⟩

theorem Arises.settled {rt : Runtime} (hn : env.NativesEvolve) (hr : env.NativesSettle)
    (h : Arises env rt) : rt.world.Settled := by
  induction h with
  | fresh => exact .empty
  | host h hevolves hinstances ih => exact ⟨hevolves.linked ih.linked, hinstances⟩
  | run h hrun ih =>
    obtain ⟨⟨result, u⟩, hthread, hrt'⟩ := Option.map_eq_some_iff.mp hrun
    cases hrt'
    exact (Thread.run_settled hn hr (settled_idle ih) hthread).world

/-- In every state of a run, frames and instances are of the classes that are loaded under their
names. -/
theorem Arises.runState_settled {rt : Runtime} {r : MemberRef} {arguments : List Value}
    {u : Thread} (hn : env.NativesEvolve) (hr : env.NativesSettle) (h : Arises env rt)
    (hstate : Thread.RunState env r arguments ⟨[], rt.world⟩ u) : u.Settled :=
  Thread.runState_settled hn hr (settled_idle (h.settled hn hr)) hstate

end Runtime

end Jvm
