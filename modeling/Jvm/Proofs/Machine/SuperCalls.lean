import Jvm.Proofs.Machine.CallingConvention
import Jvm.Proofs.Machine.Residence

/-!
# Calls of superclass methods

`invokespecial` may name any superclass of the class of the code. The lookup starts at the class
that is named: the rule that lets it start at the direct superclass applies only where that is the
class named. So the method that is called is the nearest one to the named class, and a class between
the two that declares the method is passed over.
-/

namespace Jvm

/-! ### Parts of a chain -/

namespace Class

variable {c k : Class} {between : List Class} {name descriptor : String}

theorem exists_between (h : k ∈ c.lineage) : ∃ between, c.lineage = between ++ k.lineage := by
  obtain ⟨file, ancestors⟩ := c
  induction ancestors generalizing file with
  | nil =>
    obtain rfl : k = ⟨file, []⟩ := List.mem_singleton.mp h
    exact ⟨[], rfl⟩
  | cons parent rest ih =>
    rcases List.mem_cons.mp h with rfl | h
    · exact ⟨[], rfl⟩
    · obtain ⟨between, hbetween⟩ := ih parent h
      exact ⟨⟨file, parent :: rest⟩ :: between, congrArg (List.cons _) hbetween⟩

/-- Passing over the classes of a lower part makes no difference exactly when none of them declares
the method. -/
theorem resolveMethod?_eq_iff (h : c.lineage = between ++ k.lineage)
    (hnodup : (c.lineage.map Class.name).Nodup) :
    c.resolveMethod? name descriptor = k.resolveMethod? name descriptor ↔
      ∀ j ∈ between, j.file.method? name descriptor = none := by
  have hsplit : c.resolveMethod? name descriptor =
      (between.findSome? fun j => (j.file.method? name descriptor).map fun m => (j, m)).or
        (k.resolveMethod? name descriptor) := by
    rw [resolveMethod?, h, List.findSome?_append]
    rfl
  cases hfound : between.findSome? fun j =>
      (j.file.method? name descriptor).map fun m => (j, m) with
  | none =>
    rw [hsplit, hfound, Option.none_or]
    refine iff_of_true rfl fun j hj => ?_
    exact Option.map_eq_none_iff.mp (List.findSome?_eq_none_iff.mp hfound j hj)
  | some found =>
    obtain ⟨j, hj, hdeclares⟩ := List.exists_of_findSome?_eq_some hfound
    obtain ⟨m, hm, rfl⟩ := Option.map_eq_some_iff.mp hdeclares
    rw [hsplit, hfound, Option.some_or]
    refine iff_of_false (fun heq => ?_) fun hnone => ?_
    · -- The class that declares it would stand in both parts of the chain.
      obtain ⟨hupper, -⟩ := mem_of_resolveMethod? heq.symm
      rw [h, List.map_append] at hnodup
      exact (List.nodup_append.mp hnodup).2.2 _ (List.mem_map_of_mem hj) _
        (List.mem_map_of_mem hupper) rfl
    · rw [hnone j hj] at hm
      cases hm

end Class

/-! ### The instruction -/

namespace Exec

open Scene (onArea)

variable {env : Environment} {r : MemberRef} {isInterface : Bool} {s t : Scene}

/-- What a special call does with the method that it has found. -/
def specialCall (env : Environment) (r : MemberRef) (found : Class × Method) : Exec Step :=
  if found.2.isStatic then
    Effect.fail (incompatible ("invokespecial of static method " ++ r.text))
  else if found.2.isSynchronized then
    Effect.fail (.of .resolution .unsupportedMethodKind
      ("synchronized " ++ Frame.methodLabel found.1 found.2))
  else do
    let (arguments, parameters) ← popArguments r.descriptor
    let receiver ← popReceiver r
    call env found.1 found.2 (some receiver) arguments parameters

theorem invokeSpecial_eq {index : UInt16} {c : Class}
    (href : s.frame.pool.anyMethodref index = .ok (r, isInterface)) (hinit : r.name ≠ "<init>")
    (hensure : onArea (env.loader.ensure r.className) s = (.ok c, t)) :
    invokeSpecial env index s =
      (resolveSpecial env (specialStart t.frame.cls c r) r isInterface >>=
        specialCall env r) t := by
  have href' : (Effect.ofExcept (s.frame.pool.anyMethodref index) : Exec _) s =
      (.ok (r, isInterface), s) := by
    rw [href]
    rfl
  have hread : ∀ f : Scene → Exec Step, (Effect.read >>= f) t = f t t := fun _ => rfl
  rw [invokeSpecial, ClassUse.pool_bind, Effect.bind_apply, href']
  dsimp only
  rw [if_neg hinit, pure_bind]
  dsimp only
  rw [Effect.bind_apply, hensure]
  dsimp only
  rw [hread]
  unfold specialCall
  rfl

theorem specialStart_eq {current c : Class}
    (h : ∀ parent, current.super? = some parent → r.className = parent.name → parent = c) :
    specialStart current c r = c := by
  unfold specialStart
  split
  · rename_i parent hparent
    split
    · rename_i hrule
      exact h parent hparent hrule.2.2.2.2
    · rfl
  · rfl

theorem specialCall_eq_ok {d : MethodDescriptor} {found : Class × Method}
    {arguments rest : List Value} {target : Reference} {call : Invocation}
    (hinstance : found.2.isStatic = false) (hfree : found.2.isSynchronized = false)
    (hd : MethodDescriptor.parse r.descriptor = .ok d)
    (harguments : Arguments d.parameters arguments)
    (hstack : s.frame.stack = arguments.reverse ++ .reference target :: rest)
    (hbind : env.bind found.1 found.2 (some (.reference target)) arguments d.parameters =
      .ok call) :
    specialCall env r found s = (.ok (.invoke call false), s.withStack rest) := by
  have hcall : Exec.call env found.1 found.2 (some target) arguments d.parameters
      (s.withStack rest) = (.ok (.invoke call false), s.withStack rest) := by
    rw [Exec.call, Effect.bind_apply, Option.map_some, hbind]
    rfl
  rw [specialCall, hinstance, hfree, if_neg Bool.false_ne_true, if_neg Bool.false_ne_true,
    Effect.bind_apply, popArguments_of_arguments hd harguments hstack]
  dsimp only
  rw [Effect.bind_apply, popReceiver_reference]
  exact hcall

end Exec

/-- How a special call goes in code whose direct superclass is `parent`, where `r` names the class
`k` above or in `parent`. The method is looked up from `k`; with an instance method and its operands
in place, this is the method called. It is the one that `parent` has exactly when none of the
classes below `k` declares it. -/
structure Exec.SuperCall (env : Environment) (i : Instruction) (s : Scene) (r : MemberRef)
    (isInterface : Bool) (parent k : Class) : Prop where
  lookup : ∀ depth, env.execute depth i s =
    (resolveSpecial env k r isInterface >>= specialCall env r) s
  called : ∀ depth decl m d arguments target rest call,
    k.resolveMethod? r.name r.descriptor = some (decl, m) → m.isStatic = false →
    m.isSynchronized = false → MethodDescriptor.parse r.descriptor = .ok d →
    Arguments d.parameters arguments →
    s.frame.stack = arguments.reverse ++ .reference target :: rest →
    env.bind decl m (some (.reference target)) arguments d.parameters = .ok call →
      env.execute depth i s = (.ok (.invoke call false), s.withStack rest)
  passed : ∃ between, parent.lineage = between ++ k.lineage ∧
    (k.resolveMethod? r.name r.descriptor = parent.resolveMethod? r.name r.descriptor ↔
      ∀ j ∈ between, j.file.method? r.name r.descriptor = none)

variable {env : Environment} {i : Instruction} {r : MemberRef} {isInterface : Bool}
  {parent k : Class}

theorem Environment.execute_superCall {s : Scene} (hop : i.opcode = .invokespecial)
    (href : s.frame.pool.anyMethodref i.index = .ok (r, isInterface)) (hinit : r.name ≠ "<init>")
    (hs : s.Settled) (hparent : s.frame.cls.super? = some parent) (hk : k ∈ parent.lineage)
    (hname : r.className = k.name) : Exec.SuperCall env i s r isInterface parent k := by
  have ha := hs.world.linked
  have hlineage := Class.lineage_of_super? hparent
  have hloaded : ∀ j ∈ parent.lineage, s.world.area.Resident j := fun j hj =>
    ha.lineage hs.current (hlineage ▸ List.mem_cons_of_mem _ hj)
  have hensure : Scene.onArea (env.loader.ensure r.className) s = (.ok k, s) :=
    onArea_of_eq (Loader.ensure_of_class? env.loader (hname ▸ hloaded k hk))
  have hstart : Exec.specialStart s.frame.cls k r = k := by
    refine Exec.specialStart_eq fun above habove hdirect => ?_
    obtain rfl : above = parent := Option.some.inj (habove.symm.trans hparent)
    have hsame : s.world.area.class? above.name = some above :=
      hloaded above above.mem_lineage_self
    rw [← hdirect, hname, hloaded k hk] at hsame
    exact (Option.some.inj hsame).symm
  have hexecute : ∀ depth, env.execute depth i s =
      (Exec.resolveSpecial env k r isInterface >>= Exec.specialCall env r) s := by
    intro depth
    rw [Environment.execute, hop]
    dsimp only
    rw [Exec.invokeSpecial_eq href hinit hensure, hstart]
  refine ⟨hexecute, ?_, ?_⟩
  · intro depth decl m d arguments target rest call hfound hinstance hfree hd harguments hstack
      hbind
    rw [hexecute, Exec.resolveSpecial, hfound, pure_bind]
    exact Exec.specialCall_eq_ok hinstance hfree hd harguments hstack hbind
  · obtain ⟨between, hbetween⟩ := Class.exists_between hk
    refine ⟨between, hbetween, ?_⟩
    rw [eq_comm]
    exact Class.resolveMethod?_eq_iff hbetween (ha.lineage_nodup (hloaded parent
      parent.mem_lineage_self))

namespace Runtime

/-- In every state of every run: when the code of the current frame calls a method of a class above
its own, other than a constructor, the method is the nearest one to the class that is named. A
declaration that is nearer to the code is passed over. -/
theorem superCall_from_named {rt : Runtime} (hn : env.NativesEvolve) (hr : env.NativesSettle)
    (h : Arises env rt) {entry : MemberRef} {arguments : List Value} {j : Invocation}
    {t u : Thread} {pc : Nat} {f : Frame} {below : List Frame}
    (hcall : Thread.RunCall env entry arguments ⟨[], rt.world⟩ j t)
    (hloop : Thread.LoopState env j t u pc) (hframes : u.frames = f :: below)
    (hop : i.opcode = .invokespecial)
    (href : f.pool.anyMethodref i.index = .ok (r, isInterface)) (hinit : r.name ≠ "<init>")
    (hparent : f.cls.super? = some parent) (hk : k ∈ parent.lineage)
    (hname : r.className = k.name) :
    Exec.SuperCall env i ⟨f, u.world⟩ r isInterface parent k := by
  have hu := h.runState_settled hn hr (.looping hcall hloop)
  obtain ⟨frames, w⟩ := u
  obtain rfl : frames = f :: below := hframes
  exact Environment.execute_superCall hop href hinit hu.scene hparent hk hname

def superFile (name superName : String) (methods : List Method) : ClassFile where
  minor := 0
  major := 52
  pool := ⟨#[none, some (.utf8 "A" none), some (.classRef 1), some (.utf8 "()I" none),
    some (.utf8 "m" none), some (.utf8 "Code" none), some (.nameAndType 4 3),
    some (.methodref 2 6), some (.utf8 "run" none), some (.utf8 "C" none), some (.classRef 9),
    some (.utf8 name none), some (.classRef 11), some (.utf8 superName none),
    some (.classRef 13)]⟩
  flags := 0x21
  thisClass := 12
  superClass := if superName = "" then 0 else 14
  interfaces := []
  fields := []
  methods := methods
  attributes := []
  name := name
  superName := superName

/-- `A.m` returns 1. -/
def superA : ClassFile :=
  superFile "A" "" [⟨1, 4, 3, [Thread.sampleBody 1 1 [0x04, 0xAC]], "m", "()I"⟩]

/-- `B.m` returns 2. -/
def superB : ClassFile :=
  superFile "B" "A" [⟨1, 4, 3, [Thread.sampleBody 1 1 [0x05, 0xAC]], "m", "()I"⟩]

/-- `C.run` calls `A.m` on a new instance of `C`. -/
def superC : ClassFile :=
  superFile "C" "B"
    [⟨9, 8, 3, [Thread.sampleBody 1 0 [0xBB, 0, 10, 0xB7, 0, 7, 0xAC]], "run", "()I"⟩]

def superEnvironment : Environment where
  loader := ⟨fun name =>
    if name = "A" then .ok superA
    else if name = "B" then .ok superB
    else if name = "C" then .ok superC
    else .error (classNotFound name), 3⟩
  natives := .standard
  maxDepth := 4
  observed := false

-- `C.run` is about to call `A.m`.
theorem super_called :
    ∃ j t u f i call, Thread.RunCall superEnvironment ⟨"C", "run", "()I"⟩ [] ⟨[], .empty⟩ j t ∧
      Thread.LoopState superEnvironment j t u 3 ∧ u.frames = [f] ∧
      f.code.at? 3 = some i ∧ i.opcode = .invokespecial ∧
      f.pool.anyMethodref i.index = .ok (⟨"A", "m", "()I"⟩, false) ∧
      f.cls = ⟨superC, [superB, superA]⟩ ∧ f.stack = [.reference (.object 0)] ∧
      superEnvironment.bind ⟨superA, []⟩ superA.methods[0] (some (.reference (.object 0))) [] [] =
        .ok call ∧
      call.callee.method? = some (⟨superA, []⟩, superA.methods[0]) :=
  ⟨_, _, _, _, _, _, @Thread.RunCall.entry _ _ _ _ _ _ 9 _ _ rfl rfl rfl,
    .step (.start rfl rfl) rfl, rfl, rfl, rfl, rfl, rfl, rfl, rfl, rfl⟩

theorem superCall_from_named_sample :
    superEnvironment.NativesEvolve ∧ superEnvironment.NativesSettle ∧
    Arises superEnvironment .empty ∧
    ∃ j t u f i call s, Thread.RunCall superEnvironment ⟨"C", "run", "()I"⟩ [] ⟨[], .empty⟩ j t ∧
      Thread.LoopState superEnvironment j t u 3 ∧ u.frames = [f] ∧
      f.code.at? 3 = some i ∧ i.opcode = .invokespecial ∧
      superEnvironment.execute u.depth i ⟨f, u.world⟩ = (.ok (.invoke call false), s) ∧
      call.callee.method? = some (⟨superA, []⟩, superA.methods[0]) := by
  have hn : superEnvironment.NativesEvolve := Environment.nativesEvolve_standard rfl
  have hr : superEnvironment.NativesSettle := Environment.nativesSettle_standard rfl
  obtain ⟨j, t, u, f, i, call, hcall, hloop, hframes, hat, hop, href, hcls, hstack, hbind,
    hmethod⟩ := super_called
  have hparent : f.cls.super? = some ⟨superB, [superA]⟩ := by
    rw [hcls]
    rfl
  have hnamed := superCall_from_named hn hr .fresh hcall hloop hframes hop href (by decide) hparent
    (k := ⟨superA, []⟩) (List.mem_cons_of_mem _ List.mem_cons_self) rfl
  have hcalled := hnamed.called u.depth ⟨superA, []⟩ superA.methods[0] ⟨[], some ⟨.int, 0⟩⟩ []
    (.object 0) [] call rfl rfl rfl rfl .nil hstack hbind
  exact ⟨hn, hr, .fresh, j, t, u, f, i, call, _, hcall, hloop, hframes, hat, hop, hcalled, hmethod⟩

/-- `C.run` calls `A.m`, though the direct superclass `B` of `C` declares the method. -/
theorem superCall_passes_over :
    ∃ j t u f i call s parent k,
      Thread.RunCall superEnvironment ⟨"C", "run", "()I"⟩ [] ⟨[], .empty⟩ j t ∧
      Thread.LoopState superEnvironment j t u 3 ∧ u.frames = [f] ∧
      f.code.at? 3 = some i ∧ i.opcode = .invokespecial ∧
      f.pool.anyMethodref i.index = .ok (⟨"A", "m", "()I"⟩, false) ∧
      Access.has f.cls.file.flags Access.superBit ∧ f.cls.super? = some parent ∧
      k ∈ parent.lineage ∧ k.name = "A" ∧ k.isInterface = false ∧
      superEnvironment.execute u.depth i ⟨f, u.world⟩ = (.ok (.invoke call false), s) ∧
      (call.callee.method?.map fun found => found.1.name) = some "A" ∧
      ((parent.resolveMethod? "m" "()I").map fun found => found.1.name) = some "B" := by
  obtain ⟨j, t, u, f, i, call, hcall, hloop, hframes, hat, hop, href, hcls, hstack, hbind,
    hmethod⟩ := super_called
  have hu := Arises.fresh.runState_settled (Environment.nativesEvolve_standard rfl)
    (Environment.nativesSettle_standard rfl) (.looping hcall hloop)
  obtain ⟨frames, w⟩ := u
  obtain rfl : frames = [f] := hframes
  have hparent : f.cls.super? = some ⟨superB, [superA]⟩ := by
    rw [hcls]
    rfl
  have hk : ⟨superA, []⟩ ∈ Class.lineage ⟨superB, [superA]⟩ :=
    List.mem_cons_of_mem _ List.mem_cons_self
  have hspecial : Exec.SuperCall superEnvironment i ⟨f, w⟩ ⟨"A", "m", "()I"⟩ false
      ⟨superB, [superA]⟩ ⟨superA, []⟩ :=
    Environment.execute_superCall hop href (by decide) hu.scene hparent hk rfl
  have hcalled := hspecial.called 1 ⟨superA, []⟩ superA.methods[0] ⟨[], some ⟨.int, 0⟩⟩ []
    (.object 0) [] call rfl rfl rfl rfl .nil hstack hbind
  refine ⟨j, t, _, f, i, call, _, _, _, hcall, hloop, rfl, hat, hop, href, ?_, hparent, hk, rfl,
    rfl, hcalled, ?_, rfl⟩
  · rw [hcls]
    rfl
  · rw [hmethod]
    rfl

end Runtime

end Jvm
