import Jvm.Machine.Runtime
import Jvm.Proofs.ClassFile.Rejection
import Jvm.Proofs.Machine.Contents

/-!
# How runs fail

A run fails with a fault of its loader, of an instruction, of a native, of a call or of a jump, and
contexts put around it say where. The one fault that belongs to the loop itself is that of an
address at which no instruction stands.
-/

namespace Jvm

open Effect

/-- The classes of failure of a run, but for the one of the loop itself. -/
def Thread.kinds : List FaultKind := Exec.kinds ++ [.stackOverflow]

def FaultKind.all : List FaultKind := Thread.kinds ++ [.unknownInstruction]

variable {F : Fault → Prop}

/-! ### Loading -/

theorem Class.raises_staticInitials (hF : Fault.Family [.index, .typeMismatch] F)
    (file : ClassFile) (slot : Nat) (fields : List Field) :
    Raises F (staticInitialsFrom file slot fields) := by
  induction fields generalizing slot with
  | nil => exact .ok []
  | cons f rest ih =>
    refine Raises.bind ?_ fun v => (ih (slot + 1)).bind fun vs => .ok _
    unfold staticInitial
    dsimp only
    split
    · exact .ok _
    · split
      · exact .map (file.pool.raises_entryAs hF _ _ _)
      · exact .map (file.pool.raises_entryAs hF _ _ _)
      · exact .map (file.pool.raises_entryAs hF _ _ _)
      · exact .map (file.pool.raises_entryAs hF _ _ _)
      · exact .map (file.pool.raises_string hF _)

namespace Loader

variable {l : Loader} (hF : Fault.Family Exec.kinds F) (hload : ∀ name, Raises F (l.load name))

include hF hload

theorem raises_classFile (name : String) : Raises F (l.classFile name) := by
  have hbuiltin : Raises F builtinObject := .ok _
  unfold classFile
  split
  · split
    · exact .ok _
    · exact .error (hF.of _ (by decide) (by decide))
  · rename_i f hf
    have hfault : F f := hload name f hf
    split
    · split
      · exact hbuiltin
      · exact .error hfault
    · exact .error (hF.context _ hfault)

theorem raises_planFrom (a : MethodArea) (fuel : Nat) (pending : List String) (name : String) :
    Raises F (l.planFrom a fuel pending name) := by
  induction fuel generalizing pending name with
  | zero => exact .error (hF.of _ (by decide) (by decide))
  | succ fuel ih =>
    unfold planFrom
    split
    · exact .ok _
    · split
      · exact .error (hF.of _ (by decide) (by decide))
      · split
        · rename_i f hf
          exact .error (raises_classFile hF hload name f hf)
        · split
          · exact .ok _
          · split
            · rename_i f hf
              exact .error (hF.context _ (ih _ _ f hf))
            · exact .ok _

omit hload in
theorem raises_define (plan : Plan) : plan.define.Raises F := by
  have hlink : ∀ file ancestors, (MethodArea.link file ancestors).Raises F := by
    intro file ancestors a
    unfold MethodArea.link
    split
    · rename_i f hf
      have hstatics := Class.raises_staticInitials (hF.mono (by decide)) file 0 _ f hf
      exact .error (hF.context _ hstatics)
    · exact .ok _
  induction plan with
  | present cls => exact fun a => .ok cls
  | root file => exact hlink file []
  | derived file parent ih =>
    intro a
    unfold Plan.define
    split
    · rename_i f b hf
      exact .error (hF.context _ (ih.apply hf))
    · rename_i c b hc
      exact hlink _ _ b

theorem raises_ensure (name : String) : (l.ensure name).Raises F := by
  intro a
  unfold ensure
  split
  · rename_i f hf
    exact .error (raises_planFrom hF hload a _ _ name f hf)
  · rename_i plan hplan
    exact raises_define hF plan a

end Loader

/-! ### Natives -/

/-- Every registered native fails with faults in `F`. -/
def NativeTable.Raise (natives : NativeTable) (F : Fault → Prop) : Prop :=
  ∀ r run, natives.find? r = some run → ∀ site arguments, (run site arguments).Raises F

theorem Native.raises_standardDescriptors (hF : Fault.Family Exec.kinds F) (c : Class) (fd : Nat)
    (fields : List String) : (standardDescriptors c fd fields).Raises F := by
  induction fields generalizing fd with
  | nil => exact .pure ()
  | cons field rest ih =>
    rw [standardDescriptors]
    split
    · have hnew : (World.newInstance c).Raises F := fun w => .ok _
      refine hnew.bind fun r => (Effect.Raises.update _).bind fun _ => Effect.Raises.read.bind fun w => ?_
      split
      · exact (Effect.Raises.update _).bind fun _ => ih (fd + 1)
      · rename_i f hset
        refine Effect.Raises.bind (.fail ?_) fun _ => ih (fd + 1)
        unfold MethodArea.setStatic at hset
        split at hset
        · cases hset
          exact hF.of _ (by decide) (by decide)
        · cases hset
    · exact ih (fd + 1)

theorem NativeTable.raise_standard (hF : Fault.Family Exec.kinds F) :
    NativeTable.standard.Raise F := by
  intro r run hrun site arguments
  rcases NativeTable.standard_cases hrun with rfl | rfl | rfl | rfl
  · exact .pure Value.none
  · unfold Native.getClass
    split
    · exact .fail (hF.of _ (by decide) (by decide))
    · exact .fail (hF.of _ (by decide) (by decide))
    · exact .pure _
  · unfold Native.hashCode
    split
    · exact .fail (hF.of _ (by decide) (by decide))
    · exact .fail (hF.of _ (by decide) (by decide))
    · exact .pure _
    · exact .pure _
  · refine Effect.Raises.read.bind fun w => ?_
    split
    · exact .fail (hF.of _ (by decide) (by decide))
    · exact (Native.raises_standardDescriptors hF _ _ _).bind fun _ => .pure _

/-! ### Calls -/

theorem Frame.raises_make (hF : Fault.Family Exec.kinds F) (cls : Class) (method : Method)
    (receiver : Option Value) (parameters : List FieldType) (arguments : List Value)
    (serial : Nat) (observed : Bool) :
    Raises F (Frame.make cls method receiver parameters arguments serial observed) := by
  have hbind : ∀ name i slot types values slots,
      Raises F (bindArguments name i slot types values slots) := by
    intro name i slot types values slots
    fun_induction bindArguments name i slot types values slots with
    | case1 => exact .error (hF.of _ (by decide) (by decide))
    | case2 _ _ _ _ _ _ _ _ ih => exact ih
    | case3 => exact .ok _
  unfold Frame.make
  dsimp only
  split
  · exact .error (hF.of _ (by decide) (by decide))
  · split
    · exact .error (hF.of _ (by decide) (by decide))
    · cases receiver with
      | none => exact (hbind _ _ _ _ _ _).bind fun _ => .ok _
      | some v =>
        dsimp only
        split
        · exact .error (hF.of _ (by decide) (by decide))
        · exact (hbind _ _ _ _ _ _).bind fun _ => .ok _

namespace Thread

/-- The loop is at an address of the code at which no instruction stands. -/
def Stray (t : Thread) (pc : Nat) : Prop :=
  ∃ f below, t.frames = f :: below ∧ pc < f.code.bytes.length ∧ f.code.at? pc = none

/-- The fault of such an address, in some context. -/
def IsStrayFault (f : Fault) : Prop :=
  f.kind = .unknownInstruction ∧ f.cause? = some .unknownInstruction

/-- What the faults of a run are made of. -/
structure Terms (env : Environment) (F : Fault → Prop) : Prop where
  faults : Fault.Family Thread.kinds F
  load : ∀ name, (env.loader.ensure name).Raises F
  natives : env.natives.Raise F

variable {env : Environment}

theorem Terms.instructions (T : Terms env F) : Exec.Terms env F fun _ => True :=
  ⟨T.faults.mono (by decide), T.load, fun _ _ => True.intro⟩

variable (T : Terms env F)

include T

theorem Terms.raises_push (cls : Class) (method : Method) (i : Invocation) (t : Thread) :
    Raises F (t.push env cls method i) := by
  unfold push
  split
  · exact .error (T.faults.of _ (by decide) (by decide))
  · exact (Frame.raises_make (T.faults.mono (by decide)) _ _ _ _ _ _ _).bind fun _ => .ok _

theorem Terms.callNative {i : Invocation} (hi : i.Known env) {run : Native}
    {method? : Option (Class × Method)} (hcallee : i.callee = .native run method?) {site : CallSite}
    {arguments : List Value} {w w' : World} {f : Fault} (h : run site arguments w = (.error f, w'))
    (label : String) : F (.context label f) := by
  obtain ⟨r, hr⟩ := hi run method? hcallee
  exact T.faults.context label ((T.natives r run hr site arguments).apply h)

/-- A step fails with a fault of its parts, or because no instruction stands at its address. -/
theorem Terms.step_error {base : Nat} {t u : Thread} {pc : Nat} {f : Fault}
    (h : Thread.step env base t pc = .finished (.error f) u) :
    F f ∨ Stray t pc ∧ IsStrayFault f := by
  obtain ⟨_ | ⟨g, below⟩, w⟩ := t
  · cases h
  obtain ⟨m, htakes, hstep⟩ := exists_takes env g below w pc
  rw [hstep] at h
  -- A move that fails is an `abort`.
  obtain ⟨g', w', rfl⟩ : ∃ g' w', m = .abort g' f w' := by
    cases m with
    | stay g' pc' w' => cases h
    | enter callee g' w' => cases h
    | abort g' fault w' =>
      cases h
      exact ⟨g', w', rfl⟩
    | leave value w' =>
      simp only [Move.progress, returning] at h
      split at h
      · cases h
      · split at h <;> cases h
  cases htakes with
  | unknown hpc hat =>
    have hlt := (List.getElem?_eq_some_iff.mp hpc).1
    exact .inr ⟨⟨g, below, rfl, hlt, hat⟩, rfl, rfl⟩
  | fails hpc hat hexec =>
    exact .inl (T.faults.context _ ((Environment.raises_execute T.instructions _ _).apply hexec))
  | follows hpc hat hexec hfollows =>
    left
    have hsound := Environment.execute_sound hexec
    cases hfollows with
    | badJump hout => exact T.faults.context _ (T.faults.of _ (by decide) (by decide))
    | badNative hcallee hrun =>
      exact T.faults.context _ (T.callNative hsound.known hcallee hrun _)
    | badCall hcallee hpush => exact T.faults.context _ (T.raises_push _ _ _ _ _ hpush)

/-! ### Runs -/

theorem Terms.loop_error {i : Invocation} {t u : Thread} {f : Fault} (fuel : Nat) {v : Thread}
    {pc : Nat} (hstate : LoopState env i t v pc)
    (h : loop env t.depth fuel v pc = some (.error f, u)) :
    F f ∨ IsStrayFault f ∧ ∃ v pc, LoopState env i t v pc ∧ Stray v pc := by
  induction fuel generalizing v pc with
  | zero => cases h
  | succ fuel ih =>
    rw [loop] at h
    cases hstep : Thread.step env t.depth v pc with
    | running v' pc' =>
      rw [hstep] at h
      exact ih (hstate.step hstep) h
    | finished result v' =>
      rw [hstep] at h
      cases h
      rcases T.step_error hstep with hF | ⟨hstray, hfault⟩
      · exact .inl hF
      · exact .inr ⟨hfault, v, pc, hstate, hstray⟩

theorem Terms.execute_error {fuel : Nat} {i : Invocation} {t u : Thread} {f : Fault}
    (hi : i.Known env) (h : execute env fuel i t = some (.error f, u)) :
    F f ∨ IsStrayFault f ∧ ∃ v pc, LoopState env i t v pc ∧ Stray v pc := by
  unfold execute at h
  cases hcallee : i.callee with
  | native run method? =>
    left
    simp only [hcallee, Thread.callNative, Option.some.injEq] at h
    split at h
    · cases h
    · rename_i g w hrun
      cases h
      exact T.callNative hi hcallee hrun _
  | body cls method =>
    simp only [hcallee] at h
    cases hpush : t.push env cls method i with
    | error g =>
      rw [hpush] at h
      cases h
      exact .inl (T.raises_push _ _ _ _ _ hpush)
    | ok entered =>
      rw [hpush] at h
      exact T.loop_error fuel (.start hcallee hpush) h

omit T in
theorem known_of_initStep {c : Class} {w w' : World} {i : Invocation}
    (h : World.onArea (env.initStep c) w = (.ok (some i), w')) : i.Known env := by
  have hclaim := congrArg Prod.fst (World.onArea_eq h)
  have hnext : (env.claimFrom c.lineage.reverse w.area).1 = some i := Except.ok.inj hclaim
  exact (Exec.sound_claimFrom (G := fun _ => True) hnext).known

theorem Terms.initialize_error {fuel : Nat} {c : Class} {f : Fault} {u : Thread} (n : Nat)
    {t : Thread} (h : initializeWithin env fuel c n t = some (.error f, u)) :
    F f ∨ IsStrayFault f ∧ ∃ i t' v pc, InitializerCall env c t i t' ∧ LoopState env i t' v pc ∧
      Stray v pc := by
  induction n generalizing t with
  | zero => cases h
  | succ n ih =>
    rw [initializeWithin] at h
    split at h
    · rename_i hclaim
      cases World.onArea_eq hclaim
    · cases h
    · rename_i i w hclaim
      split at h
      · cases h
      · rename_i g v hexec
        cases h
        rcases T.execute_error (known_of_initStep hclaim) hexec with hF | ⟨hfault, v', pc, hv⟩
        · exact .inl hF
        · exact .inr ⟨hfault, i, _, v', pc, .first hclaim, hv⟩
      · rename_i value v hexec
        rcases ih h with hF | ⟨hfault, j, t', v', pc, hcall, hv⟩
        · exact .inl hF
        · exact .inr ⟨hfault, j, t', v', pc, .later hclaim hexec hcall, hv⟩

theorem Terms.raises_entryCall (c : Class) (r : MemberRef) (arguments : List Value) :
    Raises F (entryCall env c r arguments) := by
  unfold entryCall
  split
  · exact .error (T.faults.of _ (by decide) (by decide))
  · split
    · exact .error (T.faults.of _ (by decide) (by decide))
    · refine Raises.bind (MethodDescriptor.raises_parse (T.faults.mono (by decide)) _) fun d => ?_
      exact T.instructions.raises_bind _ _ _ _ _

/-- A run fails with a fault of its parts, or because one of its loops comes to an address at which
no instruction stands. -/
theorem Terms.run_error {fuel : Nat} {r : MemberRef} {arguments : List Value} {t u : Thread}
    {f : Fault} (h : run env fuel r arguments t = some (.error f, u)) :
    F f ∨ IsStrayFault f ∧ ∃ i t' v pc, RunCall env r arguments t i t' ∧
      LoopState env i t' v pc ∧ Stray v pc := by
  unfold run at h
  split at h
  · rename_i g w hload
    cases h
    exact .inl ((T.load _).apply (World.onArea_eq hload))
  · rename_i c w hload
    split at h
    · cases h
    · rename_i g v hinit
      cases h
      rcases T.initialize_error _ hinit with hF | ⟨hfault, i, t', v, pc, hcall, hv⟩
      · exact .inl hF
      · exact .inr ⟨hfault, i, t', v, pc, .initializer hload hcall, hv⟩
    · rename_i v hinit
      split at h
      · rename_i g hentry
        cases h
        exact .inl (T.raises_entryCall _ _ _ _ hentry)
      · rename_i i hentry
        rcases T.execute_error (Invariant.entryCall_known hentry) h with hF | ⟨hfault, v', pc, hv⟩
        · exact .inl hF
        · exact .inr ⟨hfault, i, v, v', pc, .entry hload hinit hentry, hv⟩

end Thread

/-! ### Programs in memory -/

def Library.environment (library : Library) (maxDepth : Nat) (observed : Bool) : Environment :=
  ⟨library.loader, .standard, maxDepth, observed⟩

/-- One of the class files declares a pool without slots. -/
def Library.Slotless (library : Library) : Prop :=
  ∃ name data, library.lookup name = some data ∧ ClassFile.declaredCount? data = some 0

theorem Library.raises_load (library : Library) (name : String) :
    Raises (Fault.Sorted Thread.kinds library.Slotless) (library.loader.load name) := by
  intro f hf
  simp only [Library.loader] at hf
  split at hf
  · rename_i data hdata
    exact (ClassFile.parse_sorted hf).mono (by decide) fun hzero => ⟨name, data, hdata, hzero⟩
  · cases hf
    exact (Fault.Sorted.family _ _).of _ (by decide) (by decide)

theorem Thread.Terms.of_library (library : Library) (maxDepth : Nat) (observed : Bool) :
    Thread.Terms (library.environment maxDepth observed)
      (Fault.Sorted Thread.kinds library.Slotless) := by
  have hF := Fault.Sorted.family Thread.kinds library.Slotless
  have hinstructions : Fault.Family Exec.kinds _ := hF.mono (by decide)
  exact ⟨hF, Loader.raises_ensure hinstructions library.raises_load,
    NativeTable.raise_standard hinstructions⟩

theorem Thread.run_sorted {library : Library} {maxDepth fuel : Nat} {observed : Bool}
    {r : MemberRef} {arguments : List Value} {t u : Thread} {f : Fault}
    (h : run (library.environment maxDepth observed) fuel r arguments t = some (.error f, u)) :
    f.Sorted FaultKind.all library.Slotless := by
  rcases (Terms.of_library library maxDepth observed).run_error h with hsorted | ⟨⟨hkind, hcause⟩, -⟩
  · exact hsorted.mono (by decide) id
  · have hall : f.kind ∈ FaultKind.all := by
      rw [hkind]
      decide
    refine .inl ⟨hall, .unknownInstruction, hcause, ?_⟩
    rw [hkind]
    decide

theorem World.raises_internAll {F : Fault → Prop} (contents : List String) :
    (internAll contents).Raises F := by
  intro w
  obtain ⟨rs, w', hall, -⟩ := internAll_spec contents w
  rw [hall]
  exact .ok rs

theorem Runtime.raises_entryArguments {F : Fault → Prop} (hF : Fault.Family Exec.kinds F)
    (r : MemberRef) (arguments : List String) : (entryArguments r arguments).Raises F := by
  have hparse := MethodDescriptor.raises_parse (hF.mono (by decide)) r.descriptor
  refine Effect.Raises.bind (.ofExcept hparse) fun d => ?_
  split
  · exact .pure _
  · exact (World.raises_internAll arguments).bind fun strings =>
      Effect.Raises.bind (fun w => .ok _) fun array => .pure _
  · exact .fail (hF.of _ (by decide) (by decide))

theorem Runtime.runEntry_eq_error {env : Environment} {fuel : Nat} {r : MemberRef}
    {arguments : List String} {rt rt' : Runtime} {f : Fault}
    (h : rt.runEntry env fuel r arguments = some (.error f, rt')) :
    (∃ w, entryArguments r arguments rt.world = (.error f, w)) ∨
      ∃ values w u, entryArguments r arguments rt.world = (.ok values, w) ∧
        Thread.run env fuel r values ⟨[], w⟩ = some (.error f, u) := by
  unfold runEntry at h
  split at h
  · rename_i g w hbad
    cases h
    exact .inl ⟨w, hbad⟩
  · rename_i values w hvalues
    obtain ⟨⟨result, rt₁⟩, hrun, hresult⟩ := Option.map_eq_some_iff.mp h
    obtain ⟨⟨result', u⟩, hthread, hthreadResult⟩ := Option.map_eq_some_iff.mp hrun
    cases hthreadResult
    cases hresult
    exact .inr ⟨values, w, u, hvalues, hthread⟩

/-- Bytes are rejected, and programs in memory fail, with a fault of a known class that has a cause
of its class. Only a pool without slots is an error of the format where the cause is an index. -/
theorem failures_sorted :
    (∀ data f, ClassFile.parse data = .error f →
      f.Sorted ClassFile.kinds (ClassFile.declaredCount? data = some 0)) ∧
    ∀ (library : Library) (maxDepth fuel : Nat) (observed : Bool) (r : MemberRef) (f : Fault),
      (∀ (arguments : List Value) (t u : Thread),
        Thread.run (library.environment maxDepth observed) fuel r arguments t = some (.error f, u) →
          f.Sorted FaultKind.all library.Slotless) ∧
      ∀ (arguments : List String) (rt rt' : Runtime),
        rt.runEntry (library.environment maxDepth observed) fuel r arguments = some (.error f, rt') →
          f.Sorted FaultKind.all library.Slotless := by
  refine ⟨fun data f hparse => ClassFile.parse_sorted hparse, ?_⟩
  intro library maxDepth fuel observed r f
  refine ⟨fun arguments t u hrun => Thread.run_sorted hrun, ?_⟩
  intro arguments rt rt' hentry
  rcases Runtime.runEntry_eq_error hentry with ⟨w, hbad⟩ | ⟨values, w, u, -, hrun⟩
  · have hF := Fault.Sorted.family FaultKind.all library.Slotless
    exact (Runtime.raises_entryArguments (hF.mono (by decide)) r arguments).apply hbad
  · exact Thread.run_sorted hrun

def slotless : Library := [("A", [0xCA, 0xFE, 0xBA, 0xBE, 0, 0, 0, 52, 0, 0])]

theorem slotless_fails :
    ∃ f rt, Runtime.empty.runEntry (slotless.environment 1 false) 1 ⟨"A", "f", "()V"⟩ [] =
        some (.error f, rt) ∧ f.cause? = some .invalidConstantIndex :=
  ⟨_, _, rfl, rfl⟩

theorem failures_sorted_slotless :
    (∃ f, ClassFile.parse [0xCA, 0xFE] = .error f ∧ f.cause? = some .truncated ∧
      f.Sorted ClassFile.kinds (ClassFile.declaredCount? [0xCA, 0xFE] = some 0)) ∧
    (∃ f u, Thread.run (slotless.environment 1 false) 1 ⟨"B", "f", "()V"⟩ [] ⟨[], .empty⟩ =
        some (.error f, u) ∧
      f.cause? = some .classNotFound ∧ f.Sorted FaultKind.all slotless.Slotless) ∧
    ∃ f rt, Runtime.empty.runEntry (slotless.environment 1 false) 1 ⟨"A", "f", "()V"⟩ [] =
        some (.error f, rt) ∧
      f.cause? = some .invalidConstantIndex ∧ f.Sorted FaultKind.all slotless.Slotless := by
  obtain ⟨f, rt, hrun, hcause⟩ := slotless_fails
  exact ⟨⟨_, rfl, rfl, failures_sorted.1 _ _ rfl⟩,
    ⟨_, _, rfl, rfl, (failures_sorted.2 slotless 1 1 false ⟨"B", "f", "()V"⟩ _).1 [] ⟨[], .empty⟩ _ rfl⟩,
    f, rt, hrun, hcause, (failures_sorted.2 slotless 1 1 false _ f).2 _ _ _ hrun⟩

end Jvm
