import Jvm.Machine.Execution
import Jvm.Proofs.Machine.Resolving
import Jvm.Proofs.Machine.Starting

/-!
# Instructions that need a started class

Reading and writing a static field, allocating an instance and calling a static method all go the
same way: find the class concerned, ask for the next initialiser of its chain, and only when there
is none do the work. `ClassUse` is that work, and `ClassUse.Outcome` says how such an instruction
can go.
-/

namespace Jvm

open Scene (onFrame onWorld onArea)

/-! ### Computations on the method area -/

def Scene.withArea (s : Scene) (area : MethodArea) : Scene :=
  { s with world := { s.world with area } }

section

variable {α β : Type}

theorem onArea_apply (m : Effect MethodArea α) (s : Scene) :
    onArea m s = ((m s.world.area).1, s.withArea (m s.world.area).2) := rfl

theorem onArea_of_eq {m : Effect MethodArea α} {s : Scene} {r : Except Fault α} {b : MethodArea}
    (h : m s.world.area = (r, b)) : onArea m s = (r, s.withArea b) := by
  rw [onArea_apply, h]

theorem World.onArea_eq {m : Effect MethodArea α} {w w' : World} {r : Except Fault α}
    (h : World.onArea m w = (r, w')) : m w.area = (r, w'.area) := by
  rw [World.onArea, Effect.zoom] at h
  rcases hm : m w.area with ⟨r', b⟩
  rw [hm] at h
  cases h
  rfl

theorem onArea_bind (m : Effect MethodArea α) (f : α → Effect MethodArea β) :
    onArea (m >>= f) = onArea m >>= fun a => onArea (f a) := by
  funext s
  rw [Effect.bind_apply, onArea_apply, onArea_apply, Effect.bind_apply]
  rcases m s.world.area with ⟨e | a, b⟩ <;> rfl

theorem onArea_ofExcept (e : Except Fault α) :
    onArea (Effect.ofExcept e) = Effect.ofExcept e := rfl

end

namespace MethodArea

/-- The classes of `a` have the static values in `b` that they have in `a`. -/
def KeepsStatics (b a : MethodArea) : Prop :=
  ∀ name e, a.entry? name = some e →
    ∃ e', b.entry? name = some e' ∧ e'.cls = e.cls ∧ e'.statics = e.statics

theorem Extended.keepsStatics {a b : MethodArea} (h : a.Extended b) : b.KeepsStatics a :=
  fun _ e he => ⟨e, h.keeps he, rfl, rfl⟩

theorem keepsStatics_marked (a : MethodArea) (names : List String) :
    (a.marked names).KeepsStatics a := by
  intro name e he
  rw [entry?_marked, he]
  exact ⟨_, rfl, rfl, rfl⟩

theorem KeepsStatics.trans {a b c : MethodArea} (hab : b.KeepsStatics a)
    (hbc : c.KeepsStatics b) : c.KeepsStatics a := by
  intro name e he
  obtain ⟨e', he', hcls, hstatics⟩ := hab name e he
  obtain ⟨e'', he'', hcls', hstatics'⟩ := hbc name e' he'
  exact ⟨e'', he'', hcls'.trans hcls, hstatics'.trans hstatics⟩

end MethodArea

theorem MethodArea.preserves_evolves (env : Environment) (a : MethodArea) :
    env.loader.Preserves (MethodArea.Evolves env a) :=
  fun _ name h => h.step (.load name)

/-! ### What is done with a started class -/

/-- The work that an instruction does with a class that has been started. -/
inductive ClassUse where
  | read (decl : Class) (r : MemberRef)
  | write (decl : Class) (r : MemberRef)
  | allocate (c : Class)
  | bind (decl : Class) (method : Method) (r : MemberRef)

namespace ClassUse

/-- The class concerned: for fields and methods, the class that declares them. -/
def subject : ClassUse → Class
  | read decl _ | write decl _ | allocate decl | bind decl _ _ => decl

open Exec in
def perform (env : Environment) : ClassUse → Exec Step
  | read decl r => do
    let s ← Effect.read
    let v ← Effect.ofExcept (s.world.area.static decl r.name r.descriptor)
    pushNext v
  | write decl r => do
    let v ← onFrame (Frame.popKind (Kind.ofDescriptor? r.descriptor))
    let s ← Effect.read
    let area ← Effect.ofExcept (s.world.area.setStatic decl r.name r.descriptor v)
    onWorld (Effect.update fun w => { w with area })
    return .next
  | allocate c => do
    let r ← onWorld (World.newInstance c)
    pushNext (.reference r)
  | bind decl m r => do
    let (arguments, parameters) ← popArguments r.descriptor
    call env decl m none arguments parameters

def ofField (env : Environment) (p : ConstantPool) (index : UInt16) :
    Effect MethodArea (Class × MemberRef) := do
  let r ← Effect.ofExcept (p.fieldref index)
  let c ← env.loader.ensure r.className
  let (decl, f) ← env.loader.resolveField c r.name r.descriptor
  if f.isStatic = true then return (decl, r)
  else Effect.fail (Exec.incompatible (r.text ++ " static=" ++ toString f.isStatic))

def ofClass (env : Environment) (p : ConstantPool) (index : UInt16) :
    Effect MethodArea ClassUse := do
  let name ← Effect.ofExcept (p.className index)
  let c ← env.loader.ensure name
  if c.isInterface || Access.has c.file.flags Access.abstractBit then
    Effect.fail (Exec.incompatible
      ("new of " ++ Access.text .wholeClass c.file.flags ++ " " ++ name))
  else return .allocate c

def ofMethod (env : Environment) (p : ConstantPool) (index : UInt16) :
    Effect MethodArea ClassUse := do
  let (r, _) ← Effect.ofExcept (p.anyMethodref index)
  let c ← env.loader.ensure r.className
  match c.resolveMethod? r.name r.descriptor with
  | none => Effect.fail (methodNotFound r.text)
  | some (decl, m) =>
    if !m.isStatic then
      Effect.fail (Exec.incompatible ("invokestatic of instance method " ++ r.text))
    else return .bind decl m r

/-- A native is registered for the very method that is referred to. -/
def hasNative (env : Environment) (p : ConstantPool) (index : UInt16) : Bool :=
  match p.anyMethodref index with
  | .ok (r, _) => (env.natives.find? r).isSome
  | .error _ => false

/-- How an instruction finds the class that it needs to be started; `none` for an instruction that
needs none, as also a static call does when a native is registered for the reference. -/
def find? (env : Environment) (p : ConstantPool) (i : Instruction) :
    Option (Effect MethodArea ClassUse) :=
  match i.opcode with
  | .getstatic => some do
    let (decl, r) ← ofField env p i.index
    return .read decl r
  | .putstatic => some do
    let (decl, r) ← ofField env p i.index
    return .write decl r
  | .new => some (ofClass env p i.index)
  | .invokestatic => if hasNative env p i.index then none else some (ofMethod env p i.index)
  | _ => none

theorem pool_bind {α : Type} (f : ConstantPool → Exec α) (s : Scene) :
    (Exec.pool >>= f) s = f s.frame.pool s := rfl

theorem resolveField_eq (env : Environment) (index : UInt16) (s : Scene) :
    Exec.resolveField env index true s = onArea (ofField env s.frame.pool index) s := by
  rw [Exec.resolveField, pool_bind, ofField, onArea_bind, onArea_ofExcept]
  refine congrFun (bind_congr fun r => ?_) s
  rw [onArea_bind]
  refine bind_congr fun c => ?_
  rw [onArea_bind]
  refine bind_congr fun ⟨decl, f⟩ => ?_
  dsimp only
  split <;> rfl

/-- Finds a class, sees to it that it has been started, and then works with it. -/
def guarded (env : Environment) (find : Effect MethodArea ClassUse) : Exec Step :=
  onArea find >>= fun x => Exec.initialized env x.subject (x.perform env)

theorem getStatic_eq (env : Environment) (index : UInt16) (s : Scene) :
    Exec.getStatic env index s = guarded env (do
      let (decl, r) ← ofField env s.frame.pool index
      return .read decl r) s := by
  rw [Exec.getStatic, guarded, onArea_bind, bind_assoc, Effect.bind_apply, Effect.bind_apply,
    resolveField_eq]
  rcases onArea (ofField env s.frame.pool index) s with ⟨e | ⟨decl, r⟩, t⟩ <;> rfl

theorem putStatic_eq (env : Environment) (index : UInt16) (s : Scene) :
    Exec.putStatic env index s = guarded env (do
      let (decl, r) ← ofField env s.frame.pool index
      return .write decl r) s := by
  rw [Exec.putStatic, guarded, onArea_bind, bind_assoc, Effect.bind_apply, Effect.bind_apply,
    resolveField_eq]
  rcases onArea (ofField env s.frame.pool index) s with ⟨e | ⟨decl, r⟩, t⟩ <;> rfl

theorem newInstance_eq (env : Environment) (index : UInt16) (s : Scene) :
    Exec.newInstance env index s = guarded env (ofClass env s.frame.pool index) s := by
  rw [Exec.newInstance, guarded, pool_bind, ofClass, onArea_bind, bind_assoc, onArea_ofExcept]
  refine congrFun (bind_congr fun name => ?_) s
  rw [onArea_bind, bind_assoc]
  refine bind_congr fun c => ?_
  split <;> rfl

theorem invokeStatic_eq {env : Environment} {index : UInt16} {s : Scene}
    (hnative : hasNative env s.frame.pool index = false) :
    Exec.invokeStatic env index s = guarded env (ofMethod env s.frame.pool index) s := by
  rw [Exec.invokeStatic, guarded, pool_bind, ofMethod, onArea_bind, bind_assoc, onArea_ofExcept]
  rw [hasNative] at hnative
  rcases href : s.frame.pool.anyMethodref index with f | ⟨r, isInterface⟩
  · rfl
  · rw [href] at hnative
    have hnocall : Exec.nativeCall? env r false = pure none := by
      have hnone : env.natives.find? r = none := by simpa using hnative
      rw [Exec.nativeCall?, hnone]
    show (Exec.nativeCall? env r false >>= _) s = (onArea (env.loader.ensure r.className >>= _) >>=
      _) s
    rw [hnocall, pure_bind, onArea_bind, bind_assoc]
    refine congrFun (bind_congr fun c => ?_) s
    rcases c.resolveMethod? r.name r.descriptor with _ | ⟨decl, m⟩
    · rfl
    · dsimp only
      split <;> rfl

/-- An instruction that needs a started class works with it only when it has been started. -/
theorem execute_eq {env : Environment} {i : Instruction} {s : Scene}
    {find : Effect MethodArea ClassUse} (h : find? env s.frame.pool i = some find) (depth : Nat) :
    env.execute depth i s = guarded env find s := by
  unfold find? at h
  rw [Environment.execute]
  split at h
  · rename_i hop
    cases h
    rw [hop]
    exact getStatic_eq env i.index s
  · rename_i hop
    cases h
    rw [hop]
    exact putStatic_eq env i.index s
  · rename_i hop
    cases h
    rw [hop]
    exact newInstance_eq env i.index s
  · rename_i hop
    rw [hop]
    split at h
    · cases h
    · rename_i hnative
      cases h
      exact invokeStatic_eq (by simpa using hnative)
  · cases h

/-! ### How such an instruction goes -/

/-- How an instruction goes that needs a started class: it does not find the class, it asks for the
next initialiser of the chain and for another try, or it does its work with every class of the chain
started. Nothing but the area has changed by then, and no static value. -/
inductive Outcome (env : Environment) (find : Effect MethodArea ClassUse) (s : Scene) :
    Except Fault Step × Scene → Prop where
  | unresolved {f : Fault} {b : MethodArea} (hfind : find s.world.area = (.error f, b))
    (hstatics : b.KeepsStatics s.world.area) : Outcome env find s (.error f, s.withArea b)
  | pending {x : ClassUse} {b b' : MethodArea} {i : Invocation}
    (hfind : find s.world.area = (.ok x, b))
    (hnext : env.initStep x.subject b = (.ok (some i), b'))
    (hstatics : b'.KeepsStatics s.world.area) :
    Outcome env find s (.ok (.invoke i true), s.withArea b')
  | performed {x : ClassUse} {b b' : MethodArea} (hfind : find s.world.area = (.ok x, b))
    (hdone : env.initStep x.subject b = (.ok none, b'))
    (hstatics : b'.KeepsStatics s.world.area)
    (hstarted : ∀ k ∈ x.subject.lineage, b'.Started k.name) :
    Outcome env find s (x.perform env (s.withArea b'))

variable {env : Environment} {p : ConstantPool} {i : Instruction}
  {find : Effect MethodArea ClassUse}

theorem find?_cases (h : find? env p i = some find) :
    (∃ use : Class → MemberRef → ClassUse, (∀ decl r, (use decl r).subject = decl) ∧
      find = ofField env p i.index >>= fun (decl, r) => pure (use decl r)) ∨
    find = ofClass env p i.index ∨ find = ofMethod env p i.index := by
  unfold find? at h
  split at h
  · cases h
    exact .inl ⟨.read, fun _ _ => rfl, rfl⟩
  · cases h
    exact .inl ⟨.write, fun _ _ => rfl, rfl⟩
  · cases h
    exact .inr (.inl rfl)
  · split at h
    · cases h
    · cases h
      exact .inr (.inr rfl)
  · cases h

theorem keeps_of_find? (h : find? env p i = some find) {I : MethodArea → Prop}
    (hI : env.loader.Preserves I) : Effect.Keeps I find := by
  rcases find?_cases h with ⟨use, -, rfl⟩ | rfl | rfl
  · refine Effect.Keeps.bind ?_ fun _ => .pure trivial
    refine (Effect.Keeps.ofExcept _).bind fun r => (hI.ensure _).bind fun c => ?_
    refine (hI.resolveField c _ _).bind fun ⟨decl, f⟩ => ?_
    dsimp only
    split
    · exact .pure trivial
    · exact .fail _
  · refine (Effect.Keeps.ofExcept _).bind fun name => (hI.ensure _).bind fun c => ?_
    split
    · exact .fail _
    · exact .pure trivial
  · refine (Effect.Keeps.ofExcept _).bind fun ⟨r, _⟩ => (hI.ensure _).bind fun c => ?_
    split
    · exact .fail _
    · split
      · exact .fail _
      · exact .pure trivial

theorem ofField_eq_ok {index : UInt16} {a b : MethodArea} {decl : Class} {r : MemberRef} :
    ofField env p index a = (.ok (decl, r), b) ↔
      ∃ c f a₁, p.fieldref index = .ok r ∧ env.loader.ensure r.className a = (.ok c, a₁) ∧
        env.loader.resolveField c r.name r.descriptor a₁ = (.ok (decl, f), b) ∧
        f.isStatic = true := by
  constructor
  · intro h
    obtain ⟨r', _, hlookup, hensure⟩ := Effect.bind_eq_ok.mp h
    obtain ⟨href, rfl⟩ := Effect.ofExcept_eq_ok.mp hlookup
    obtain ⟨c, a₁, hload, hrest⟩ := Effect.bind_eq_ok.mp hensure
    obtain ⟨⟨decl', f⟩, b', hresolve, hchoice⟩ := Effect.bind_eq_ok.mp hrest
    dsimp only at hchoice
    split at hchoice
    · rename_i hstatic
      cases hchoice
      exact ⟨c, f, a₁, href, hload, hresolve, hstatic⟩
    · cases hchoice
  · rintro ⟨c, f, a₁, href, hload, hresolve, hstatic⟩
    refine Effect.bind_eq_ok.mpr ⟨r, a, Effect.ofExcept_eq_ok.mpr ⟨href, rfl⟩, ?_⟩
    refine Effect.bind_eq_ok.mpr ⟨c, a₁, hload, Effect.bind_eq_ok.mpr ⟨(decl, f), b, hresolve, ?_⟩⟩
    dsimp only
    rw [if_pos hstatic]
    rfl

theorem ofClass_eq_ok {index : UInt16} {a b : MethodArea} {x : ClassUse} :
    ofClass env p index a = (.ok x, b) ↔
      ∃ name c, p.className index = .ok name ∧ env.loader.ensure name a = (.ok c, b) ∧
        (c.isInterface || Access.has c.file.flags Access.abstractBit) = false ∧
        x = .allocate c := by
  constructor
  · intro h
    obtain ⟨name, _, hlookup, hensure⟩ := Effect.bind_eq_ok.mp h
    obtain ⟨hname, rfl⟩ := Effect.ofExcept_eq_ok.mp hlookup
    obtain ⟨c, a₁, hload, hchoice⟩ := Effect.bind_eq_ok.mp hensure
    split at hchoice
    · cases hchoice
    · rename_i hconcrete
      cases hchoice
      exact ⟨name, c, hname, hload, by simpa using hconcrete, rfl⟩
  · rintro ⟨name, c, hname, hload, hconcrete, rfl⟩
    refine Effect.bind_eq_ok.mpr ⟨name, a, Effect.ofExcept_eq_ok.mpr ⟨hname, rfl⟩, ?_⟩
    refine Effect.bind_eq_ok.mpr ⟨c, b, hload, ?_⟩
    rw [hconcrete]
    rfl

theorem ofMethod_eq_ok {index : UInt16} {a b : MethodArea} {x : ClassUse} :
    ofMethod env p index a = (.ok x, b) ↔
      ∃ r isInterface c decl m, p.anyMethodref index = .ok (r, isInterface) ∧
        env.loader.ensure r.className a = (.ok c, b) ∧
        c.resolveMethod? r.name r.descriptor = some (decl, m) ∧ m.isStatic = true ∧
        x = .bind decl m r := by
  constructor
  · intro h
    obtain ⟨⟨r, isInterface⟩, _, hlookup, hensure⟩ := Effect.bind_eq_ok.mp h
    obtain ⟨href, rfl⟩ := Effect.ofExcept_eq_ok.mp hlookup
    obtain ⟨c, a₁, hload, hchoice⟩ := Effect.bind_eq_ok.mp hensure
    rcases hmethod : c.resolveMethod? r.name r.descriptor with _ | ⟨decl, m⟩
    · rw [hmethod] at hchoice
      cases hchoice
    · rw [hmethod] at hchoice
      dsimp only at hchoice
      split at hchoice
      · cases hchoice
      · rename_i hstatic
        cases hchoice
        exact ⟨r, isInterface, c, decl, m, href, hload, hmethod, by simpa using hstatic, rfl⟩
  · rintro ⟨r, isInterface, c, decl, m, href, hload, hmethod, hstatic, rfl⟩
    refine Effect.bind_eq_ok.mpr ⟨(r, isInterface), a, Effect.ofExcept_eq_ok.mpr ⟨href, rfl⟩, ?_⟩
    refine Effect.bind_eq_ok.mpr ⟨c, b, hload, ?_⟩
    rw [hmethod]
    dsimp only
    rw [hstatic]
    rfl

theorem class?_of_find? (h : find? env p i = some find) {a b : MethodArea} (ha : a.Linked)
    {x : ClassUse} (hfind : find a = (.ok x, b)) :
    b.class? x.subject.name = some x.subject := by
  have hensure : ∀ {name c b}, env.loader.ensure name a = (.ok c, b) →
      b.Linked ∧ b.class? c.name = some c := by
    intro name c b hensure
    have hclass := Loader.ensure_class? hensure
    refine ⟨(env.loader.preserves_linked.ensure name).apply ha hensure, ?_⟩
    rwa [MethodArea.name_of_class? hclass]
  rcases find?_cases h with ⟨use, huse, rfl⟩ | rfl | rfl
  · obtain ⟨⟨decl, r⟩, a₁, hfield, hpure⟩ := Effect.bind_eq_ok.mp hfind
    cases hpure
    obtain ⟨c, f, a₂, -, hload, hresolve, -⟩ := ofField_eq_ok.mp hfield
    obtain ⟨ha₂, hc⟩ := hensure hload
    have hdecl := Loader.resolveField_class? ha₂ hc hresolve
    simpa [huse] using hdecl
  · obtain ⟨name, c, -, hload, -, rfl⟩ := ofClass_eq_ok.mp hfind
    exact (hensure hload).2
  · obtain ⟨r, isInterface, c, decl, m, -, hload, hmethod, -, rfl⟩ := ofMethod_eq_ok.mp hfind
    obtain ⟨hb, hc⟩ := hensure hload
    have hdecl : decl ∈ c.lineage := by
      obtain ⟨k, hk, hfound⟩ := List.exists_of_findSome?_eq_some hmethod
      obtain ⟨m', -, heq⟩ := Option.map_eq_some_iff.mp hfound
      cases heq
      exact hk
    exact hb.lineage hc hdecl

/-- The class that was found is found again, whatever has happened in between. -/
theorem find_again (h : find? env p i = some find) {a a' b : MethodArea} (ha : a.Linked)
    {x : ClassUse} (hfind : find a = (.ok x, b)) (hlater : MethodArea.Evolves env b a') :
    find a' = (.ok x, a') := by
  have hb : b.Linked := (keeps_of_find? h env.loader.preserves_linked).apply ha hfind
  -- Whatever the search came by is loaded now, so it goes the same way and loads nothing.
  have hcovers : a'.Covers b := hlater.class? hb
  rcases find?_cases h with ⟨use, -, rfl⟩ | rfl | rfl
  · obtain ⟨⟨decl, r⟩, a₁, hfield, hpure⟩ := Effect.bind_eq_ok.mp hfind
    cases hpure
    obtain ⟨c, f, a₂, href, hload, hresolve, hstatic⟩ := ofField_eq_ok.mp hfield
    have ha₂ : a₂.Linked := (env.loader.preserves_linked.ensure _).apply ha hload
    have hresolving : MethodArea.Evolves env a₂ b :=
      ((MethodArea.preserves_evolves env a₂).resolveField c _ _).apply (.refl env a₂) hresolve
    have hlength : a₂.classes.length ≤ a'.classes.length :=
      (hresolving.trans hlater).length_le ha₂
    have hload' := Loader.ensure_again hload fun hclass =>
      (hresolving.trans hlater).class? ha₂ hclass
    have hresolve' := Loader.resolveField_again hresolve hcovers hlength
    refine Effect.bind_eq_ok.mpr ⟨(decl, r), a', ?_, rfl⟩
    exact ofField_eq_ok.mpr ⟨c, f, a', href, hload', hresolve', hstatic⟩
  · obtain ⟨name, c, hname, hload, hconcrete, rfl⟩ := ofClass_eq_ok.mp hfind
    exact ofClass_eq_ok.mpr ⟨name, c, hname, Loader.ensure_again hload hcovers, hconcrete, rfl⟩
  · obtain ⟨r, isInterface, c, decl, m, href, hload, hmethod, hstatic, rfl⟩ :=
      ofMethod_eq_ok.mp hfind
    exact ofMethod_eq_ok.mpr ⟨r, isInterface, c, decl, m, href, Loader.ensure_again hload hcovers,
      hmethod, hstatic, rfl⟩

theorem guarded_outcome {s : Scene} (h : find? env p i = some find) (ha : s.world.area.Linked) :
    Outcome env find s (guarded env find s) := by
  have hextended : ∀ {r b}, find s.world.area = (r, b) → s.world.area.Extended b :=
    fun hfind => (keeps_of_find? h (env.loader.preserves_extended _)).apply (.refl _) hfind
  rw [guarded, Effect.bind_apply]
  rcases hfind : find s.world.area with ⟨f | x, b⟩
  · rw [onArea_of_eq hfind]
    exact .unresolved hfind (hextended hfind).keepsStatics
  · rw [onArea_of_eq hfind]
    have hb : b.Linked := (keeps_of_find? h env.loader.preserves_linked).apply ha hfind
    have hclass := class?_of_find? h ha hfind
    have hnext : ∃ r b', env.initStep x.subject b = (.ok r, b') := ⟨_, _, rfl⟩
    obtain ⟨r, b', hnext⟩ := hnext
    have hstatics : b'.KeepsStatics s.world.area := by
      obtain ⟨front, _, -, hclaimed⟩ := env.initStep_claimed hb hclass
      obtain ⟨names, -, hb'⟩ := hclaimed.marked
      rw [hnext] at hb'
      obtain rfl : b' = b.marked names := hb'
      exact (hextended hfind).keepsStatics.trans (MethodArea.keepsStatics_marked b names)
    dsimp only
    rw [Exec.initialized, Effect.bind_apply, onArea_of_eq hnext]
    cases r with
    | some j => exact .pending hfind hnext hstatics
    | none => exact .performed hfind hnext hstatics (env.initStep_none hb hclass hnext)

theorem execute_outcome {s : Scene} (h : find? env s.frame.pool i = some find)
    (ha : s.world.area.Linked) (depth : Nat) :
    Outcome env find s (env.execute depth i s) := by
  rw [execute_eq h]
  exact guarded_outcome h ha

end ClassUse

end Jvm
