import Jvm.Machine.World

/-!
# Reasoning about effects

`Effect.Yields I m P` says that `m` keeps `I`, also when it fails, and that what it returns
satisfies `P`. A computation put together from parts yields what its last part yields.
-/

namespace Jvm.Effect

variable {σ τ α β : Type}

theorem bind_apply (m : Effect σ α) (f : α → Effect σ β) (s : σ) :
    (m >>= f) s =
      match m s with
      | (.ok a, t) => f a t
      | (.error e, t) => (.error e, t) := by
  show ExceptT.bindCont f (m s).1 (m s).2 = _
  rcases m s with ⟨e | a, t⟩ <;> rfl

theorem bind_eq_ok {m : Effect σ α} {f : α → Effect σ β} {s u : σ} {b : β} :
    (m >>= f) s = (.ok b, u) ↔ ∃ a t, m s = (.ok a, t) ∧ f a t = (.ok b, u) := by
  rw [bind_apply]
  rcases m s with ⟨e | a, t⟩
  · constructor
    · intro h
      cases h
    · rintro ⟨a, t', h, -⟩
      cases h
  · constructor
    · intro h
      exact ⟨a, t, rfl, h⟩
    · rintro ⟨a', t', h, hf⟩
      cases h
      exact hf

theorem ite_bind_eq_ok {c : Prop} [Decidable c] {m₁ m₂ : Effect σ α} {f : α → Effect σ β}
    {s u : σ} {b : β} : (if c then m₁ >>= f else m₂ >>= f) s = (.ok b, u) ↔
      ∃ a t, (if c then m₁ else m₂) s = (.ok a, t) ∧ f a t = (.ok b, u) := by
  split <;> exact bind_eq_ok

theorem ofExcept_eq_ok {e : Except Fault α} {s t : σ} {a : α} :
    (ofExcept e : Effect σ α) s = (.ok a, t) ↔ e = .ok a ∧ t = s := by
  constructor
  · intro h
    cases h
    exact ⟨rfl, rfl⟩
  · rintro ⟨rfl, rfl⟩
    rfl

/-! ### What computations keep and return -/

def Yields (I : σ → Prop) (m : Effect σ α) (P : α → Prop) : Prop :=
  ∀ s, I s → I (m s).2 ∧ ∀ a, (m s).1 = .ok a → P a

def Keeps (I : σ → Prop) (m : Effect σ α) : Prop := Yields I m fun _ => True

variable {I : σ → Prop} {P : α → Prop} {Q : β → Prop}

theorem of_error {f : Fault} (a : α) (h : (.error f : Except Fault α) = .ok a) : P a := by
  cases h

theorem Yields.keeps {m : Effect σ α} (h : Yields I m P) : Keeps I m :=
  fun s hs => ⟨(h s hs).1, fun _ _ => trivial⟩

theorem Yields.apply {m : Effect σ α} {s t : σ} {r : Except Fault α} (h : Yields I m P) (hs : I s)
    (hm : m s = (r, t)) : I t := by
  have hkept := (h s hs).1
  rwa [hm] at hkept

theorem Yields.mono {m : Effect σ α} {P' : α → Prop} (h : Yields I m P) (hP : ∀ a, P a → P' a) :
    Yields I m P' :=
  fun s hs => ⟨(h s hs).1, fun a ha => hP a ((h s hs).2 a ha)⟩

theorem Yields.pure {a : α} (h : P a) : Yields I (pure a) P := by
  intro s hs
  refine ⟨hs, fun b hb => ?_⟩
  cases hb
  exact h

theorem Yields.bind {m : Effect σ α} {f : α → Effect σ β} (hm : Yields I m P)
    (hf : ∀ a, P a → Yields I (f a) Q) : Yields I (m >>= f) Q := by
  intro s hs
  obtain ⟨hI, hP⟩ := hm s hs
  rw [bind_apply]
  rcases h : m s with ⟨e | a, t⟩
  · rw [h] at hI
    exact ⟨hI, of_error⟩
  · rw [h] at hI hP
    exact hf a (hP a rfl) t hI

theorem Keeps.bind {m : Effect σ α} {f : α → Effect σ β} (hm : Keeps I m)
    (hf : ∀ a, Yields I (f a) Q) : Yields I (m >>= f) Q :=
  Yields.bind hm fun a _ => hf a

theorem Yields.ite_bind {c : Prop} [Decidable c] {m₁ m₂ : Effect σ α} {f : α → Effect σ β}
    (h₁ : Yields I m₁ P) (h₂ : Yields I m₂ P) (hf : ∀ a, P a → Yields I (f a) Q) :
    Yields I (if c then m₁ >>= f else m₂ >>= f) Q := by
  split
  · exact h₁.bind hf
  · exact h₂.bind hf

theorem Yields.fail (f : Fault) : Yields I (fail f) P :=
  fun _ hs => ⟨hs, of_error⟩

theorem Yields.ofExcept {e : Except Fault α} (h : ∀ a, e = .ok a → P a) :
    Yields I (ofExcept e) P :=
  fun _ hs => ⟨hs, h⟩

theorem Keeps.ofExcept (e : Except Fault α) : Keeps I (ofExcept e) :=
  Yields.ofExcept fun _ _ => trivial

theorem Keeps.read : Keeps I (read : Effect σ σ) := fun _ hs => ⟨hs, fun _ _ => trivial⟩

theorem Yields.read_bind {f : σ → Effect σ β}
    (hf : ∀ s, I s → I (f s s).2 ∧ ∀ b, (f s s).1 = .ok b → Q b) : Yields I (read >>= f) Q :=
  hf

theorem Keeps.update {f : σ → σ} (h : ∀ s, I s → I (f s)) : Keeps I (update f) :=
  fun s hs => ⟨h s hs, fun _ _ => trivial⟩

end Jvm.Effect
