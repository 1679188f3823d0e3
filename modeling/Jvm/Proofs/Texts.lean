import Jvm.Text.Hex

/-!
# Telling texts apart

Texts that are put together are taken apart again at a separator, and the text of a number is that
of no other number.
-/

namespace Jvm.Text

theorem append_separator_inj {c : Char} {x₁ x₂ y₁ y₂ : List Char} (h₁ : c ∉ x₁) (h₂ : c ∉ x₂)
    (h : x₁ ++ c :: y₁ = x₂ ++ c :: y₂) : x₁ = x₂ ∧ y₁ = y₂ := by
  induction x₁ generalizing x₂ with
  | nil =>
    cases x₂ with
    | nil => exact ⟨rfl, (List.cons.inj h).2⟩
    | cons d x₂ => exact absurd (List.cons.inj h).1 fun hc => h₂ (hc ▸ List.mem_cons_self ..)
  | cons d x₁ ih =>
    cases x₂ with
    | nil => exact absurd (List.cons.inj h).1 fun hc => h₁ (hc ▸ List.mem_cons_self ..)
    | cons d' x₂ =>
      obtain ⟨hd, hrest⟩ := List.cons.inj h
      obtain ⟨hx, hy⟩ := ih (fun hm => h₁ (List.mem_cons_of_mem _ hm))
        (fun hm => h₂ (List.mem_cons_of_mem _ hm)) hrest
      exact ⟨by rw [hd, hx], hy⟩

/-! ### Decimal numbers -/

theorem not_mem_repr {c : Char} (hc : c.isDigit = false) (n : Nat) : c ∉ n.repr.toList := by
  intro hmem
  rw [Nat.toList_repr] at hmem
  exact Bool.false_ne_true (hc.symm.trans (Nat.isDigit_of_mem_toDigits (by decide) (by decide) hmem))

/-! ### Hexadecimal numbers -/

theorem Hex.toDigits_injective {m n : Nat} (h : Nat.toDigits 16 m = Nat.toDigits 16 n) :
    m = n := by
  have hdigit : ∀ x y : Fin 16, Nat.digitChar x.val = Nat.digitChar y.val → x = y := by decide
  induction m using Nat.strongRecOn generalizing n with
  | ind m ih =>
    rcases Nat.lt_or_ge m 16 with hm | hm <;> rcases Nat.lt_or_ge n 16 with hn | hn
    · rw [Nat.toDigits_of_lt_base hm, Nat.toDigits_of_lt_base hn] at h
      exact Fin.mk.inj (hdigit ⟨m, hm⟩ ⟨n, hn⟩ (List.singleton_inj.mp h))
    · have hlen := congrArg List.length h
      rw [Nat.toDigits_of_lt_base hm, Nat.toDigits_of_base_le (by decide) hn] at hlen
      have hne : (Nat.toDigits 16 (n / 16)).length ≠ 0 := by simp
      simp only [List.length_append, List.length_singleton] at hlen
      omega
    · have hlen := congrArg List.length h
      rw [Nat.toDigits_of_base_le (by decide) hm, Nat.toDigits_of_lt_base hn] at hlen
      have hne : (Nat.toDigits 16 (m / 16)).length ≠ 0 := by simp
      simp only [List.length_append, List.length_singleton] at hlen
      omega
    · rw [Nat.toDigits_of_base_le (by decide) hm, Nat.toDigits_of_base_le (by decide) hn] at h
      obtain ⟨hfront, hlast⟩ := List.append_inj' h rfl
      have hquot := ih (m / 16) (by omega) hfront
      have hrem := Fin.mk.inj (hdigit ⟨m % 16, by omega⟩ ⟨n % 16, by omega⟩
        (List.singleton_inj.mp hlast))
      omega

theorem Hex.lower_injective {m n : Nat} (h : lower 1 m = lower 1 n) : m = n := by
  have hpad : ∀ k, List.replicate (1 - (Nat.toDigits 16 k).length) '0' = [] := by
    intro k
    have hne : (Nat.toDigits 16 k).length ≠ 0 := by simp
    rw [show 1 - (Nat.toDigits 16 k).length = 0 by omega]
    rfl
  simp only [lower, hpad, List.nil_append] at h
  exact toDigits_injective (String.ofList_injective h)

end Jvm.Text
