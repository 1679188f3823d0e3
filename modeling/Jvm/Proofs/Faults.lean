import Jvm.Constant.Pool
import Jvm.Descriptor
import Jvm.Machine.Effect

/-!
# The faults of a computation

Every class of failure has causes of its own. `Raises F` says of a result, an effect or a parser
that it fails with faults in `F` only. Contexts are put around faults on the way out, so the sets of
faults that matter are closed under them: these are the families.
-/

namespace Jvm

/-- The causes that belong to a class of failure. -/
def FaultKind.causes : FaultKind → List Cause
  | format =>
    [.badMagic, .trailingData, .truncated, .invalidConstantTag, .malformedAttribute,
      .malformedDescriptor]
  | index =>
    [.invalidConstantIndex, .localOutOfBounds, .stackUnderflow, .arrayIndexOutOfBounds,
      .invalidJumpTarget]
  | typeMismatch => [.typeMismatch, .nullReference]
  | resolution =>
    [.classNotFound, .methodNotFound, .fieldNotFound, .ambiguousInterfaceMethod,
      .unsupportedMethodKind, .incompatibleClassChange, .classCircularity]
  | arithmetic => [.divideByZero]
  | unknownInstruction => [.unknownInstruction]
  | stackOverflow => [.stackOverflow]
  | unknown | other _ => []

namespace Fault

/-- A set of faults, closed under contexts, with the causes of some classes of failure. -/
structure Family (kinds : List FaultKind) (F : Fault → Prop) : Prop where
  context {f : Fault} (label : String) (hf : F f) : F (.context label f)
  of {k : FaultKind} {c : Cause} (detail : String) (hk : k ∈ kinds) (hc : c ∈ k.causes) :
    F (.of k c detail)

theorem Family.mono {kinds kinds' : List FaultKind} {F : Fault → Prop} (hF : Family kinds F)
    (hsub : kinds' ⊆ kinds) : Family kinds' F where
  context := hF.context
  of detail hk hc := hF.of detail (hsub hk) hc

/-- A fault of one of the given classes, with a cause that belongs to the class. -/
structure Among (kinds : List FaultKind) (f : Fault) : Prop where
  kind : f.kind ∈ kinds
  cause : ∃ c, f.cause? = some c ∧ c ∈ f.kind.causes

theorem Among.family (kinds : List FaultKind) : Family kinds (Among kinds) where
  context _ hf := ⟨hf.kind, hf.cause⟩
  of _ hk hc := ⟨hk, _, rfl, hc⟩

theorem Among.mono {kinds kinds' : List FaultKind} {f : Fault} (h : Among kinds f)
    (hsub : kinds ⊆ kinds') : Among kinds' f :=
  ⟨hsub h.kind, h.cause⟩

end Fault

/-! ### Results -/

variable {σ τ α β : Type} {F : Fault → Prop}

theorem Fault.ok_bind (a : α) (g : α → Except Fault β) : .ok a >>= g = g a := rfl

theorem Fault.bind_eq_ok {e : Except Fault α} {g : α → Except Fault β} {b : β} :
    e >>= g = .ok b ↔ ∃ a, e = .ok a ∧ g a = .ok b := by
  cases e with
  | error f => exact ⟨nofun, fun ⟨_, h, _⟩ => nomatch h⟩
  | ok a => exact ⟨fun h => ⟨a, rfl, h⟩, fun ⟨_, h, hg⟩ => by cases h; exact hg⟩

/-- A failure is in `F`. -/
def Raises (F : Fault → Prop) (e : Except Fault α) : Prop := ∀ f, e = .error f → F f

namespace Raises

theorem ok (a : α) : Raises F (.ok a) := fun _ h => nomatch h

theorem error {f : Fault} (hf : F f) : Raises F (.error f : Except Fault α) := by
  intro g hg
  cases hg
  exact hf

theorem bind {e : Except Fault α} {g : α → Except Fault β} (he : Raises F e)
    (hg : ∀ a, Raises F (g a)) : Raises F (e >>= g) := by
  cases e with
  | error f => exact .error (he f rfl)
  | ok a => exact hg a

theorem map {e : Except Fault α} {g : α → β} (he : Raises F e) : Raises F (g <$> e) := by
  cases e with
  | error f => exact .error (he f rfl)
  | ok a => exact .ok (g a)

end Raises

/-! ### Effects -/

/-- In whatever state, a failure is in `F`. -/
def Effect.Raises (F : Fault → Prop) (m : Effect σ α) : Prop := ∀ s, Jvm.Raises F (m s).1

namespace Effect.Raises

theorem pure (a : α) : Effect.Raises F (pure a : Effect σ α) := fun _ => .ok a

theorem fail {f : Fault} (hf : F f) : Effect.Raises F (Effect.fail f : Effect σ α) :=
  fun _ => .error hf

theorem ofExcept {e : Except Fault α} (he : Jvm.Raises F e) :
    Effect.Raises F (Effect.ofExcept e : Effect σ α) :=
  fun _ => he

theorem read : Effect.Raises F (Effect.read : Effect σ σ) := fun s => .ok s

theorem update (g : σ → σ) : Effect.Raises F (Effect.update g) := fun _ => .ok ()

theorem bind {m : Effect σ α} {g : α → Effect σ β} (hm : Effect.Raises F m)
    (hg : ∀ a, Effect.Raises F (g a)) : Effect.Raises F (m >>= g) := by
  intro s
  have hfirst := hm s
  show Jvm.Raises F (ExceptT.bindCont g (m s).1 (m s).2).1
  rcases hs : m s with ⟨f | a, t⟩
  · rw [hs] at hfirst
    exact .error (hfirst f rfl)
  · exact hg a t

theorem zoom {part : τ → σ} {put : σ → τ → τ} {m : Effect σ α} (hm : Effect.Raises F m) :
    Effect.Raises F (Effect.zoom part put m) :=
  fun t => hm (part t)

theorem apply {m : Effect σ α} {s t : σ} {f : Fault} (hm : Effect.Raises F m)
    (h : m s = (.error f, t)) : F f :=
  hm s f (congrArg Prod.fst h)

end Effect.Raises

/-! ### Parsers -/

/-- On whatever bytes, a failure is in `F`. -/
def Parser.Raises (F : Fault → Prop) (p : Parser α) : Prop := ∀ s, Jvm.Raises F (p s)

namespace Parser.Raises

theorem pure (a : α) : Parser.Raises F (pure a : Parser α) := fun s => .ok (a, s)

theorem fail {f : Fault} (hf : F f) : Parser.Raises F (Parser.fail f : Parser α) :=
  fun _ => .error hf

theorem bind {p : Parser α} {g : α → Parser β} (hp : Parser.Raises F p)
    (hg : ∀ a, Parser.Raises F (g a)) : Parser.Raises F (p >>= g) :=
  fun s => Jvm.Raises.bind (hp s) fun x => hg x.1 x.2

theorem map {p : Parser α} {g : α → β} (hp : Parser.Raises F p) : Parser.Raises F (g <$> p) :=
  hp.bind fun a => .pure (g a)

theorem ofReader {short : Fault} (hshort : F short) (r : Reader α) :
    Parser.Raises F (Parser.ofReader short r) := by
  intro s
  unfold Parser.ofReader
  split
  · exact .ok _
  · exact .error hshort

theorem ofExcept {e : Except Fault α} (he : Jvm.Raises F e) :
    Parser.Raises F (Parser.ofExcept e) := by
  intro s
  cases e with
  | error f => exact .error (he f rfl)
  | ok a => exact .ok (a, s)

theorem within {kinds : List FaultKind} (hF : Fault.Family kinds F) {label : String}
    {p : Parser α} (hp : Parser.Raises F p) : Parser.Raises F (Parser.within label p) := by
  intro s
  unfold Parser.within
  split
  · exact .ok _
  · rename_i f hf
    exact .error (hF.context label (hp s f hf))

theorem itemsOnto {item : Nat → Parser α} (hitem : ∀ i, Parser.Raises F (item i)) (n i : Nat)
    (acc : List α) : Parser.Raises F (Parser.itemsOnto item n i acc) := by
  induction n generalizing i acc with
  | zero => exact fun s => .ok (acc.reverse, s)
  | succ n ih =>
    intro s
    unfold Parser.itemsOnto
    split
    · rename_i f hf
      exact .error (hitem i s f hf)
    · rename_i a rest ha
      exact ih (i + 1) (a :: acc) rest

theorem items {item : Nat → Parser α} (hitem : ∀ i, Parser.Raises F (item i)) (n : Nat) :
    Parser.Raises F (Parser.items n item) :=
  itemsOnto hitem n 0 []

end Parser.Raises

/-! ### Look-ups in the constant pool -/

namespace ConstantPool

variable (hF : Fault.Family [.index, .typeMismatch] F) (p : ConstantPool)

include hF

theorem raises_entry (index : UInt16) : Raises F (p.entry index) := by
  unfold entry
  split
  · exact .error (hF.of _ (by decide) (by decide))
  · split
    · exact .ok _
    · exact .error (hF.of _ (by decide) (by decide))

theorem raises_entryAs (index : UInt16) (want : ConstantTag) (part : Constant → Option α) :
    Raises F (p.entryAs index want part) := by
  refine (p.raises_entry hF index).bind fun c => ?_
  split
  · exact .ok _
  · exact .error (hF.of _ (by decide) (by decide))

theorem raises_utf8 (index : UInt16) : Raises F (p.utf8 index) := p.raises_entryAs hF _ _ _

theorem raises_className (index : UInt16) : Raises F (p.className index) :=
  (p.raises_entryAs hF _ _ _).bind fun _ => p.raises_utf8 hF _

theorem raises_string (index : UInt16) : Raises F (p.string index) :=
  (p.raises_entryAs hF _ _ _).bind fun _ => p.raises_utf8 hF _

theorem raises_memberRef (i j : UInt16) : Raises F (p.memberRef i j) := by
  refine (p.raises_className hF i).bind fun className => ?_
  refine Raises.bind ?_ fun _ => .ok _
  refine (p.raises_entryAs hF _ _ _).bind fun _ => ?_
  exact (p.raises_utf8 hF _).bind fun _ => (p.raises_utf8 hF _).bind fun _ => .ok _

theorem raises_fieldref (index : UInt16) : Raises F (p.fieldref index) :=
  (p.raises_entryAs hF _ _ _).bind fun _ => p.raises_memberRef hF _ _

theorem raises_methodref (index : UInt16) : Raises F (p.methodref index) :=
  (p.raises_entryAs hF _ _ _).bind fun _ => p.raises_memberRef hF _ _

theorem raises_interfaceMethodref (index : UInt16) : Raises F (p.interfaceMethodref index) :=
  (p.raises_entryAs hF _ _ _).bind fun _ => p.raises_memberRef hF _ _

theorem raises_anyMethodref (index : UInt16) : Raises F (p.anyMethodref index) := by
  refine (p.raises_entry hF index).bind fun c => ?_
  split
  · exact (p.raises_memberRef hF _ _).bind fun _ => .ok _
  · exact (p.raises_memberRef hF _ _).bind fun _ => .ok _
  · exact .error (hF.of _ (by decide) (by decide))

end ConstantPool

/-! ### Descriptors -/

theorem MethodDescriptor.raises_parse (hF : Fault.Family [.format] F) (descriptor : String) :
    Raises F (MethodDescriptor.parse descriptor) := by
  unfold parse
  split
  · exact .ok _
  · exact .error (hF.of _ (by decide) (by decide))

end Jvm
