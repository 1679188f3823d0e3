import Jvm.Proofs.Machine.Balance
import Jvm.Proofs.Machine.CallOperands

/-!
# The method that a call runs

A call instruction resolves its reference, in part once more in the class of the receiver, and
checks the flags of what it finds on the way. For each of the four instructions, `Step.Selects` says
what is known of the method that comes out last.
-/

namespace Jvm

/-- The step is a call. If it is one of a loaded method, then the method can be run, and `P` holds
of the receiver and the method. -/
def Step.Selects (env : Environment) (P : Option Reference → Class × Method → Prop)
    (step : Step) : Prop :=
  ∃ i, step = .invoke i false ∧ ∀ found, i.callee.method? = some found →
    env.CanRun found.1 found.2 ∧
      ∃ target? : Option Reference, i.receiver = target?.map .reference ∧ P target? found

/-! ### Parts of a call -/

namespace Environment

variable {env : Environment}

theorem initializer?_selects {k : Class} {i : Invocation} (h : env.initializer? k = some i)
    {decl : Class} {m : Method} (hm : i.callee.method? = some (decl, m)) :
    i.receiver = none ∧ decl.file.method? "<clinit>" "()V" = some m := by
  obtain ⟨callee, hcallee, rfl⟩ := Option.map_eq_some_iff.mp h
  refine ⟨rfl, ?_⟩
  split at hcallee
  · cases hcallee
    cases hm
  · obtain ⟨m', hm', rfl⟩ := Option.map_eq_some_iff.mp hcallee
    cases hm
    exact hm'

end Environment

namespace Exec

open Scene (onFrame onArea)

variable {env : Environment} {P : Option Reference → Class × Method → Prop} {s t : Scene}
  {step : Step}

theorem nativeCall?_selects {r : MemberRef} {hasReceiver : Bool}
    (h : nativeCall? env r hasReceiver s = (.ok (some step), t)) : step.Selects env P := by
  unfold nativeCall? at h
  cases hrun : env.natives.find? r with
  | none =>
    rw [hrun] at h
    cases h
  | some run =>
    rw [hrun] at h
    obtain ⟨⟨arguments, parameters⟩, u, -, h⟩ := Effect.bind_eq_ok.mp h
    have hcall : ∀ receiver : Option Reference, (Step.invoke ⟨r, .native run none,
        receiver.map .reference, arguments, parameters⟩ false).Selects env P :=
      fun receiver => ⟨_, rfl, fun found hfound => nomatch hfound⟩
    dsimp only at h
    split at h <;>
    · obtain ⟨receiver, v, -, h⟩ := Effect.bind_eq_ok.mp h
      cases h
      exact hcall receiver

theorem call_selects {cls : Class} {method : Method} {target? : Option Reference}
    {arguments : List Value} {parameters : List FieldType}
    (h : call env cls method target? arguments parameters s = (.ok step, t))
    (hP : P target? (cls, method)) : step.Selects env P := by
  obtain ⟨i, u, hbind, h⟩ := Effect.bind_eq_ok.mp h
  cases h
  obtain ⟨callee, rfl, hmethod, hrun⟩ :=
    Environment.bind_eq_ok (Effect.ofExcept_eq_ok.mp hbind).1
  refine ⟨_, rfl, fun found hfound => ?_⟩
  obtain rfl : (cls, method) = found := Option.some.inj (hmethod.symm.trans hfound)
  exact ⟨hrun, target?, rfl, hP⟩

theorem initialized_eq_ok {c : Class} {m : Exec Step}
    (h : initialized env c m s = (.ok step, t)) :
    (∃ k i, env.initializer? k = some i ∧ step = .invoke i true) ∨ ∃ u, m u = (.ok step, t) := by
  obtain ⟨i?, u, hclaim, h⟩ := Effect.bind_eq_ok.mp h
  cases i? with
  | some i =>
    cases h
    have hnext : (env.claimFrom c.lineage.reverse s.world.area).1 = some i :=
      Except.ok.inj (congrArg Prod.fst hclaim)
    obtain ⟨k, -, hk⟩ := Environment.initializer?_of_claimFrom hnext
    exact .inl ⟨k, i, hk, rfl⟩
  | none => exact .inr ⟨u, h⟩

theorem ensureOrNative_selects {r : MemberRef} {m : Class → Exec Step}
    (h : ensureOrNative env r m s = (.ok step, t))
    (hm : ∀ c u, onArea (env.loader.ensure r.className) s = (.ok c, u) →
      m c u = (.ok step, t) → step.Selects env P) : step.Selects env P := by
  rcases ensureOrNative_eq_ok h with ⟨c, u, hensure, hrest⟩ | ⟨f, u, -, hnative⟩
  · exact hm c u hensure hrest
  · exact nativeCall?_selects hnative

/-! ### Operands and the search in a class -/

theorem world_popArguments {descriptor : String} {out : List Value × List FieldType}
    (h : popArguments descriptor s = (.ok out, t)) : t.world = s.world := by
  obtain ⟨d, u, hparse, hrest⟩ := Effect.bind_eq_ok.mp h
  obtain ⟨-, rfl⟩ := Effect.ofExcept_eq_ok.mp hparse
  obtain ⟨arguments, v, hpop, hreturn⟩ := Effect.bind_eq_ok.mp hrest
  cases hreturn
  obtain rfl : (onFrame _ u).2 = t := congrArg Prod.snd hpop
  rfl

theorem world_popReceiver {r : MemberRef} {target : Reference}
    (h : popReceiver r s = (.ok target, t)) : t.world = s.world := by
  obtain ⟨target?, u, hpop, h⟩ := Effect.bind_eq_ok.mp h
  obtain rfl : (onFrame _ s).2 = u := congrArg Prod.snd hpop
  cases target? with
  | none => cases h
  | some target' =>
    cases h
    rfl

/-- The computation neither reads nor changes the frame. -/
def FrameFree {α : Type} (m : Exec α) : Prop :=
  ∀ s f, m { s with frame := f } = ((m s).1, { (m s).2 with frame := f })

theorem FrameFree.bind {α β : Type} {m : Exec α} {k : α → Exec β} (hm : FrameFree m)
    (hk : ∀ a, FrameFree (k a)) : FrameFree (m >>= k) := by
  intro s f
  rw [Effect.bind_apply, Effect.bind_apply, hm s f]
  rcases m s with ⟨e | a, t⟩
  · rfl
  · exact hk a t f

theorem FrameFree.onArea {α : Type} (m : Effect MethodArea α) : FrameFree (Scene.onArea m) :=
  fun _ _ => rfl

theorem FrameFree.classOf (target : Reference) : FrameFree (classOf env target) := by
  have hheap : FrameFree heap := fun _ _ => rfl
  refine hheap.bind fun h => ?_
  cases target with
  | object n =>
    dsimp only
    cases h.instance? (.object n) with
    | none => exact fun _ _ => rfl
    | some i => exact fun _ _ => rfl
  | array n => exact .onArea _
  | string content origin => exact .onArea _

/-- What a method reference leads to in the class that it names. -/
def referenced (env : Environment) (r : MemberRef) : Exec (Class × Method) := do
  let c ← onArea (env.loader.ensure r.className)
  onArea (env.loader.resolveInterfaceMethod c r.name r.descriptor)

/-- What a method reference leads to in the class of a receiver. -/
def received (env : Environment) (r : MemberRef) (target : Reference) : Exec (Class × Method) := do
  let rc ← classOf env target
  onArea (env.loader.resolveInterfaceMethod rc r.name r.descriptor)

theorem FrameFree.received (r : MemberRef) (target : Reference) :
    FrameFree (received env r target) :=
  (FrameFree.classOf target).bind fun _ => .onArea _

/-- How a virtual call comes to its method. The reference has to lead to an instance method. A
private one is called itself; otherwise the class of the receiver decides. -/
inductive VirtualChoice (env : Environment) (r : MemberRef) (target : Reference) (s : Scene)
    (found : Class × Method) : Prop where
  | itself {u : Scene} (hreferenced : referenced env r s = (.ok found, u))
      (hinstance : found.2.isStatic = false) (hprivate : found.2.isPrivate = true)
  | overridden {base : Class × Method} {u v : Scene}
      (hreferenced : referenced env r s = (.ok base, u)) (hinstance : base.2.isStatic = false)
      (hopen : base.2.isPrivate = false) (hreceived : received env r target u = (.ok found, v))

/-- The reference leads to an instance method that a subclass may override, and the class of the
receiver has a static method in its place. -/
def Shadowed (env : Environment) (r : MemberRef) (target : Reference) (s : Scene) : Prop :=
  ∃ base u found v, referenced env r s = (.ok base, u) ∧ base.2.isStatic = false ∧
    base.2.isPrivate = false ∧ received env r target u = (.ok found, v) ∧
    found.2.isStatic = true

theorem VirtualChoice.isStatic_iff {r : MemberRef} {target : Reference} {found : Class × Method}
    (h : VirtualChoice env r target s found) :
    found.2.isStatic = true ↔ Shadowed env r target s := by
  cases h with
  | itself hreferenced hinstance hprivate =>
    refine ⟨fun hstatic => absurd hstatic (Bool.eq_false_iff.mp hinstance), ?_⟩
    rintro ⟨base, u, other, v, hbase, -, hopen, -⟩
    rw [hreferenced] at hbase
    cases hbase
    exact absurd hprivate (Bool.eq_false_iff.mp hopen)
  | overridden hreferenced hinstance hopen hreceived =>
    constructor
    · exact fun hstatic => ⟨_, _, _, _, hreferenced, hinstance, hopen, hreceived, hstatic⟩
    · rintro ⟨base, u, other, v, hbase, -, -, hother, hstatic⟩
      rw [hreferenced] at hbase
      cases hbase
      rw [hreceived] at hother
      cases hother
      exact hstatic

/-! ### The instructions that call -/

/-- What a call instruction has made sure of when it selects a method for a receiver. -/
inductive Choice (env : Environment) (i : Instruction) (s : Scene) :
    Option Reference → Class × Method → Prop where
  | static {found : Class × Method} (hop : i.opcode = .invokestatic)
      (hstatic : found.2.isStatic = true) : Choice env i s none found
  | checked {target : Reference} {found : Class × Method}
      (hop : i.opcode = .invokespecial ∨ i.opcode = .invokeinterface)
      (hinstance : found.2.isStatic = false) : Choice env i s (some target) found
  | virtual {r : MemberRef} {target : Reference} {found : Class × Method}
      (hop : i.opcode = .invokevirtual) (hr : s.frame.pool.methodref i.index = .ok r)
      (hchoice : VirtualChoice env r target s found) : Choice env i s (some target) found

variable {i : Instruction}

theorem invokeStatic_selects (hop : i.opcode = .invokestatic)
    (h : invokeStatic env i.index s = (.ok step, t)) :
    (∃ k j, env.initializer? k = some j ∧ step = .invoke j true) ∨
      step.Selects env (Choice env i s) := by
  rw [invokeStatic, ClassUse.pool_bind] at h
  obtain ⟨⟨r, _⟩, s₁, -, hnative⟩ := Effect.bind_eq_ok.mp h
  obtain ⟨step?, s₂, hstep, hrest⟩ := Effect.bind_eq_ok.mp hnative
  cases step? with
  | some called =>
    cases hrest
    exact .inr (nativeCall?_selects hstep)
  | none =>
    obtain ⟨c, s₃, -, hresolve⟩ := Effect.bind_eq_ok.mp hrest
    cases hfound : c.resolveMethod? r.name r.descriptor with
    | none =>
      rw [hfound] at hresolve
      cases hresolve
    | some found =>
      rw [hfound] at hresolve
      dsimp only at hresolve
      split at hresolve
      · cases hresolve
      · rename_i hflag
        have hstatic : found.2.isStatic = true := by simpa using hflag
        rcases initialized_eq_ok hresolve with hinit | ⟨s₄, hoperands⟩
        · exact .inl hinit
        · obtain ⟨operands, s₅, -, hcall⟩ := Effect.bind_eq_ok.mp hoperands
          exact .inr (call_selects hcall (.static hop hstatic))

theorem invokeSpecial_selects (hop : i.opcode = .invokespecial)
    (h : invokeSpecial env i.index s = (.ok step, t)) : step.Selects env (Choice env i s) := by
  rw [invokeSpecial, ClassUse.pool_bind] at h
  obtain ⟨⟨r, isInterface⟩, s₁, -, hnative⟩ := Effect.bind_eq_ok.mp h
  obtain ⟨step?, s₂, hstep, hrest⟩ := Effect.ite_bind_eq_ok.mp hnative
  cases step? with
  | some called =>
    cases hrest
    split at hstep
    · exact nativeCall?_selects hstep
    · cases hstep
  | none =>
    obtain ⟨c, s₃, -, hread⟩ := Effect.bind_eq_ok.mp hrest
    obtain ⟨scene, s₄, -, hresolve⟩ := Effect.bind_eq_ok.mp hread
    obtain ⟨⟨decl, m⟩, s₅, -, hcheck⟩ := Effect.bind_eq_ok.mp hresolve
    dsimp only at hcheck
    split at hcheck
    · cases hcheck
    · rename_i hflag
      split at hcheck
      · cases hcheck
      · obtain ⟨operands, s₆, -, hreceiver⟩ := Effect.bind_eq_ok.mp hcheck
        obtain ⟨target, s₇, -, hcall⟩ := Effect.bind_eq_ok.mp hreceiver
        exact call_selects hcall (.checked (.inl hop) (Bool.eq_false_iff.mpr hflag))

theorem invokeVirtual_selects (hop : i.opcode = .invokevirtual)
    (h : invokeVirtual env i.index s = (.ok step, t)) : step.Selects env (Choice env i s) := by
  rw [invokeVirtual, ClassUse.pool_bind] at h
  obtain ⟨r, s₁, hr, hensure⟩ := Effect.bind_eq_ok.mp h
  obtain ⟨hr, rfl⟩ := Effect.ofExcept_eq_ok.mp hr
  refine ensureOrNative_selects hensure fun c u hclass hrest => ?_
  obtain ⟨⟨decl, m⟩, v, hbase, hcheck⟩ := Effect.bind_eq_ok.mp hrest
  have hreferenced : referenced env r s₁ = (.ok (decl, m), v) :=
    Effect.bind_eq_ok.mpr ⟨c, u, hclass, hbase⟩
  dsimp only at hcheck
  split at hcheck
  · cases hcheck
  · rename_i hflag
    have hinstance : m.isStatic = false := Bool.eq_false_iff.mpr hflag
    obtain ⟨operands, w, harguments, hreceiver⟩ := Effect.bind_eq_ok.mp hcheck
    obtain ⟨target, x, htarget, hselect⟩ := Effect.bind_eq_ok.mp hreceiver
    split at hselect
    · rename_i hprivate
      obtain ⟨found, y, hfound, hcall⟩ := Effect.bind_eq_ok.mp hselect
      cases hfound
      exact call_selects hcall (.virtual hop hr (.itself hreferenced hinstance hprivate))
    · rename_i hopen
      obtain ⟨rc, y, hclassOf, hfind⟩ := Effect.bind_eq_ok.mp hselect
      obtain ⟨found, z, hfound, hcall⟩ := Effect.bind_eq_ok.mp hfind
      have hreceived : received env r target x = (.ok found, z) :=
        Effect.bind_eq_ok.mpr ⟨rc, y, hclassOf, hfound⟩
      -- Only the frame is different since the reference was resolved.
      have hworld : x.world = v.world :=
        (world_popReceiver htarget).trans (world_popArguments harguments)
      have hbefore : received env r target v = (.ok found, { z with frame := v.frame }) := by
        have hfree := @FrameFree.received env r target x v.frame
        rw [hreceived, hworld] at hfree
        exact hfree
      exact call_selects hcall (.virtual hop hr
        (.overridden hreferenced hinstance (Bool.eq_false_iff.mpr hopen) hbefore))

theorem invokeInterface_selects (hop : i.opcode = .invokeinterface)
    (h : invokeInterface env i.index s = (.ok step, t)) : step.Selects env (Choice env i s) := by
  rw [invokeInterface, ClassUse.pool_bind] at h
  obtain ⟨r, s₁, -, hensure⟩ := Effect.bind_eq_ok.mp h
  refine ensureOrNative_selects hensure fun c u hclass hrest => ?_
  dsimp only at hrest
  split at hrest
  · cases hrest
  · obtain ⟨base, v, -, harguments⟩ := Effect.bind_eq_ok.mp hrest
    obtain ⟨operands, w, -, hreceiver⟩ := Effect.bind_eq_ok.mp harguments
    obtain ⟨target, x, -, hclassOf⟩ := Effect.bind_eq_ok.mp hreceiver
    obtain ⟨rc, y, -, hfind⟩ := Effect.bind_eq_ok.mp hclassOf
    obtain ⟨⟨decl, m⟩, z, -, hcheck⟩ := Effect.bind_eq_ok.mp hfind
    dsimp only at hcheck
    split at hcheck
    · cases hcheck
    · rename_i hflags
      obtain ⟨-, hinstance⟩ := Bool.or_eq_false_iff.mp (Bool.eq_false_iff.mpr hflags)
      exact call_selects hcheck (.checked (.inr hop) hinstance)

end Exec

namespace Environment

open Exec (Choice Shadowed)

variable {env : Environment} {depth : Nat} {i : Instruction} {s t : Scene}

theorem execute_choice {step : Step} (hcall : i.opcode ∈ Opcode.calls)
    (h : env.execute depth i s = (.ok step, t)) :
    (i.opcode = .invokestatic ∧ ∃ k j, env.initializer? k = some j ∧ step = .invoke j true) ∨
      step.Selects env (Choice env i s) := by
  simp only [Opcode.calls, List.mem_cons, List.not_mem_nil, or_false] at hcall
  unfold execute at h
  rcases hcall with hop | hop | hop | hop <;> simp only [hop] at h
  · exact (Exec.invokeStatic_selects hop h).imp_left fun hinit => ⟨hop, hinit⟩
  · exact .inr (Exec.invokeSpecial_selects hop h)
  · exact .inr (Exec.invokeVirtual_selects hop h)
  · exact .inr (Exec.invokeInterface_selects hop h)

/-- When a call instruction asks for a call of a loaded method, this is either the initialiser of a
class that `invokestatic` has to start first, or a method that the instruction has selected. The
latter is not abstract and has a native or code, and exactly the calls of `invokestatic` have no
receiver. The method is static exactly when there is no receiver, unless the instruction is
`invokevirtual` and the class of the receiver has a static method in place of the instance method
that the reference leads to. -/
theorem execute_selects {inv : Invocation} {retry : Bool} {decl : Class} {m : Method}
    (hcall : i.opcode ∈ Opcode.calls)
    (h : env.execute depth i s = (.ok (.invoke inv retry), t))
    (hm : inv.callee.method? = some (decl, m)) :
    (retry = true → i.opcode = .invokestatic ∧ inv.receiver = none ∧
      decl.file.method? "<clinit>" "()V" = some m) ∧
    (retry = false → env.CanRun decl m ∧ (inv.receiver = none ↔ i.opcode = .invokestatic) ∧
      ((m.isStatic = true ↔ inv.receiver = none) ↔
        ¬ (i.opcode = .invokevirtual ∧ ∃ r target, s.frame.pool.methodref i.index = .ok r ∧
          inv.receiver = some (.reference target) ∧ Shadowed env r target s))) := by
  rcases execute_choice hcall h with ⟨hop, k, j, hinit, hj⟩ | ⟨j, hj, hfound⟩
  · cases hj
    obtain ⟨hreceiver, hmethod⟩ := initializer?_selects hinit hm
    exact ⟨fun _ => ⟨hop, hreceiver, hmethod⟩, nofun⟩
  · cases hj
    obtain ⟨hrun, target?, hreceiver, hchoice⟩ := hfound _ hm
    rw [hreceiver]
    refine ⟨nofun, fun _ => ⟨hrun, ?_⟩⟩
    cases hchoice with
    | static hop hstatic => simp [hop, show m.isStatic = true from hstatic]
    | checked hop hinstance =>
      rcases hop with hop | hop <;> simp [hop, show m.isStatic = false from hinstance]
    | virtual hop hr hchoice => simp [hop, hr, ← hchoice.isStatic_iff]

end Environment

def overriddenFile : ClassFile where
  minor := 0
  major := 52
  pool := ⟨#[none, some (.utf8 "P" none), some (.classRef 1), some (.utf8 "m" none),
    some (.utf8 "()I" none), some (.utf8 "Code" none)]⟩
  flags := 0x21
  thisClass := 2
  superClass := 0
  interfaces := []
  fields := []
  methods := [⟨1, 3, 4, [Thread.sampleBody 1 1 [0x04, 0xAC]], "m", "()I"⟩]
  attributes := []
  name := "P"

/-- A subclass of it with a static method `m`. -/
def shadowingFile : ClassFile where
  minor := 0
  major := 52
  pool := ⟨#[none, some (.utf8 "Q" none), some (.classRef 1), some (.utf8 "m" none),
    some (.utf8 "()I" none), some (.utf8 "Code" none), some (.utf8 "P" none), some (.classRef 6)]⟩
  flags := 0x21
  thisClass := 2
  superClass := 7
  interfaces := []
  fields := []
  methods := [⟨9, 3, 4, [Thread.sampleBody 1 1 [0x05, 0xAC]], "m", "()I"⟩]
  attributes := []
  name := "Q"
  superName := "P"

/-- A class that calls `m` on what its method `f` is given. -/
def callingFile : ClassFile where
  minor := 0
  major := 52
  pool := ⟨#[none, some (.utf8 "A" none), some (.classRef 1), some (.utf8 "f" none),
    some (.utf8 "(LP;)I" none), some (.utf8 "Code" none), some (.utf8 "P" none), some (.classRef 6),
    some (.utf8 "m" none), some (.utf8 "()I" none), some (.nameAndType 8 9),
    some (.methodref 7 10)]⟩
  flags := 0x21
  thisClass := 2
  superClass := 0
  interfaces := []
  fields := []
  methods := [⟨9, 3, 4, [Thread.sampleBody 1 1 [0x2A, 0xB6, 0, 11, 0xAC]], "f", "(LP;)I"⟩]
  attributes := []
  name := "A"

def callingEnvironment : Environment := ⟨.empty, .standard, 4, false⟩

/-- The frame of `f` in front of the call, with one of two instances on its stack. The first is one
of `P` and the second one of `Q`. -/
def callingScene (n : Nat) : Scene where
  frame :=
    { cls := ⟨callingFile, []⟩, method := callingFile.methods[0]
      code := .make 1 1 [0x2A, 0xB6, 0, 11, 0xAC] [] [], resumePc := 0
      slots := #[.reference (.object n)], stack := [.reference (.object n)], serial := 0,
      observed := false }
  world :=
    { area := ⟨[⟨⟨callingFile, []⟩, [], true⟩, ⟨⟨shadowingFile, [overriddenFile]⟩, [], true⟩,
        ⟨⟨overriddenFile, []⟩, [], true⟩]⟩
      heap := ⟨#[⟨⟨overriddenFile, []⟩, []⟩, ⟨⟨shadowingFile, [overriddenFile]⟩, []⟩], #[], 0⟩
      strings := [], stores := [], calls := 1 }

theorem execute_selects_overridden :
    ∃ i inv t, (callingScene 0).frame.code.at? 1 = some i ∧ i.opcode ∈ Opcode.calls ∧
      callingEnvironment.execute 1 i (callingScene 0) = (.ok (.invoke inv false), t) ∧
      inv.callee.method? = some (⟨overriddenFile, []⟩, overriddenFile.methods[0]) ∧
      callingEnvironment.CanRun ⟨overriddenFile, []⟩ overriddenFile.methods[0] ∧
      ¬ Exec.Shadowed callingEnvironment ⟨"P", "m", "()I"⟩ (.object 0) (callingScene 0) := by
  obtain ⟨i, inv, t, hat, hop, h, hm, hreceiver, hr⟩ :
      ∃ i inv t, (callingScene 0).frame.code.at? 1 = some i ∧ i.opcode = .invokevirtual ∧
        callingEnvironment.execute 1 i (callingScene 0) = (.ok (.invoke inv false), t) ∧
        inv.callee.method? = some (⟨overriddenFile, []⟩, overriddenFile.methods[0]) ∧
        inv.receiver = some (.reference (.object 0)) ∧
        (callingScene 0).frame.pool.methodref i.index = .ok ⟨"P", "m", "()I"⟩ :=
    ⟨_, _, _, rfl, rfl, rfl, rfl, rfl, rfl⟩
  have hcall : i.opcode ∈ Opcode.calls := by
    rw [hop]
    decide
  obtain ⟨hrun, -, hagree⟩ := (Environment.execute_selects hcall h hm).2 rfl
  have hinstance : overriddenFile.methods[0].isStatic = false := by decide
  refine ⟨i, inv, t, hat, hcall, h, hm, hrun, fun hshadowed => ?_⟩
  refine hagree.mp ?_ ⟨hop, _, _, hr, hreceiver, hshadowed⟩
  rw [hinstance, hreceiver]
  exact iff_of_false Bool.false_ne_true nofun

/-- On an instance of `Q` the call of the instance method `P.m` runs the static method `Q.m`, with
the instance as its receiver. -/
theorem execute_static_on_receiver :
    ∃ i inv t, (callingScene 1).frame.code.at? 1 = some i ∧ i.opcode = .invokevirtual ∧
      callingEnvironment.execute 1 i (callingScene 1) = (.ok (.invoke inv false), t) ∧
      inv.callee.method? =
        some (⟨shadowingFile, [overriddenFile]⟩, shadowingFile.methods[0]) ∧
      shadowingFile.methods[0].isStatic = true ∧
      inv.receiver = some (.reference (.object 1)) :=
  ⟨_, _, _, rfl, rfl, rfl, rfl, by decide, rfl⟩

end Jvm
