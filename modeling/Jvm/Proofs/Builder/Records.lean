import Jvm.Proofs.Builder.Interning
import Jvm.Proofs.ClassFile.PoolCodec

/-!
# What a pool records

`Recorded asked b` says what the pool of `b` holds after the constants `asked`: for each key the
entry of the first constant that was asked for under it, with the parts of that constant further to
the front. One step preserves this as long as its index fits into two bytes, and so does every
sequence of steps in which the parts of a constant come before it.
-/

namespace Jvm

/-! ### Empty slots -/

theorem ConstantPool.lt_count_of_slot? {p : ConstantPool} {i : UInt16} {k : Constant}
    (h : p.slot? i = some k) : i.toNat < p.count := by
  rcases Nat.lt_or_ge i.toNat p.count with hlt | hge
  · exact hlt
  · rw [ConstantPool.slot?, Array.getElem?_eq_none hge] at h
    cases h

/-- The empty slots of a pool are slot 0 and those after wide entries, and no slot is missing after
the last entry. -/
structure ConstantPool.Gapped (p : ConstantPool) : Prop where
  zero : p.slots[0]? = some none
  gap : ∀ i < p.count, i ≠ 0 → (p.slots[i]? = some none ↔ p.wideAt (i - 1) = true)
  last : p.wideAt (p.count - 1) = false

theorem ConstantPool.getElem?_append_slots (slots : Array (Option Constant)) (c : Constant)
    (k : Nat) : (slots ++ c.slots.toArray)[slots.size + k]? = c.slots[k]? := by
  rw [Array.getElem?_append, if_neg (by omega), Nat.add_sub_cancel_left, List.getElem?_toArray]

theorem ConstantPool.Gapped.append {p : ConstantPool} (h : p.Gapped) (c : Constant) :
    ConstantPool.Gapped ⟨p.slots ++ c.slots.toArray⟩ := by
  have hpos : 0 < p.slots.size := by
    rcases Nat.eq_zero_or_pos p.slots.size with hzero | hpos
    · have hnone := h.zero
      rw [Array.getElem?_eq_none (by omega)] at hnone
      cases hnone
    · exact hpos
  have hold : ∀ i < p.slots.size, (p.slots ++ c.slots.toArray)[i]? = p.slots[i]? := by
    intro i hi
    rw [Array.getElem?_append, if_pos hi]
  have hnew := getElem?_append_slots p.slots c
  have hlast := h.last
  have hgap := h.gap
  simp only [count, wideAt] at hlast hgap
  refine ⟨(hold 0 hpos).trans h.zero, fun i hi hne => ?_, ?_⟩
  · simp only [count, wideAt] at hi ⊢
    rcases Nat.lt_or_ge i p.slots.size with hlt | hge
    · rw [hold i hlt, hold (i - 1) (by omega)]
      exact hgap i hlt hne
    · obtain ⟨k, rfl⟩ := Nat.exists_eq_add_of_le hge
      rw [hnew k]
      -- The entry comes right after the old slots, the last of which is not wide.
      rcases Nat.eq_zero_or_pos k with rfl | hk
      · rw [Nat.add_zero, hold _ (by omega), hlast]
        rcases c.slots_eq with ⟨-, hc⟩ | ⟨-, hc⟩ <;> simp [hc]
      · rw [show p.slots.size + k - 1 = p.slots.size + (k - 1) by omega, hnew (k - 1)]
        rcases c.slots_eq with ⟨-, hc⟩ | ⟨hwide, hc⟩
        · rw [hc] at hi
          simp at hi
          omega
        · rw [hc] at hi ⊢
          obtain rfl : k = 1 := by
            simp at hi
            omega
          simp [hwide]
  · simp only [count, wideAt, Array.size_append, List.size_toArray]
    rcases c.slots_eq with ⟨hnarrow, hc⟩ | ⟨-, hc⟩
    · rw [show p.slots.size + c.slots.length - 1 = p.slots.size + 0 by rw [hc]; rfl, hnew, hc]
      simp [hnarrow]
    · rw [show p.slots.size + c.slots.length - 1 = p.slots.size + 1 by rw [hc]; rfl, hnew, hc]
      simp

namespace Builder

variable {b : Builder} {w v : Wanted}

/-! ### Pools that grow -/

/-- What stands in the pool and in its table stays there. -/
structure Extends (b c : Builder) : Prop where
  size_le : b.slots.size ≤ c.slots.size
  slot : ∀ i < b.slots.size, c.slots[i]? = b.slots[i]?
  lookup : ∀ w, b.Knows w → c.interned.lookup w.key = b.interned.lookup w.key

namespace Extends

variable {c d : Builder}

theorem refl (b : Builder) : b.Extends b := ⟨Nat.le_refl _, fun _ _ => rfl, fun _ _ => rfl⟩

theorem knows (h : b.Extends c) (hw : b.Knows w) : c.Knows w := by
  rwa [Knows, h.lookup w hw]

theorem trans (h : b.Extends c) (h' : c.Extends d) : b.Extends d where
  size_le := Nat.le_trans h.size_le h'.size_le
  slot i hi := (h'.slot i (Nat.lt_of_lt_of_le hi h.size_le)).trans (h.slot i hi)
  lookup w hw := (h'.lookup w (h.knows hw)).trans (h.lookup w hw)

theorem indexOf_eq (h : b.Extends c) (hw : b.Knows w) : c.indexOf w = b.indexOf w := by
  rw [indexOf, indexOf, h.lookup w hw]

theorem slot?_eq (h : b.Extends c) {i : UInt16} {k : Constant} (hi : b.pool.slot? i = some k) :
    c.pool.slot? i = some k := by
  rw [ConstantPool.slot?, pool, h.slot i.toNat (ConstantPool.lt_count_of_slot? hi)]
  exact hi

end Extends

theorem extends_add (b : Builder) (w : Wanted) : b.Extends (b.add w) := by
  refine ⟨?_, fun i hi => ?_, fun v hv => lookup_add hv w⟩
  · rcases add_cases b w with ⟨-, heq⟩ | ⟨-, heq⟩ <;> simp [heq]
  · rcases add_cases b w with ⟨-, heq⟩ | ⟨-, heq⟩ <;> simp [heq, Array.getElem?_append, hi]

theorem extends_foldl (b : Builder) (ws : List Wanted) : b.Extends (ws.foldl add b) := by
  induction ws generalizing b with
  | nil => exact Extends.refl b
  | cons w ws ih => exact (extends_add b w).trans (ih (b.add w))

structure SamePool (b c : Builder) : Prop where
  slots : c.slots = b.slots
  interned : c.interned = b.interned

namespace SamePool

variable {c d : Builder}

theorem refl (b : Builder) : b.SamePool b := ⟨rfl, rfl⟩

theorem trans (h : b.SamePool c) (h' : c.SamePool d) : b.SamePool d :=
  ⟨h'.slots.trans h.slots, h'.interned.trans h.interned⟩

theorem pool_eq (h : b.SamePool c) : c.pool = b.pool := by rw [pool, h.slots, pool]

theorem indexOf_eq (h : b.SamePool c) : c.indexOf = b.indexOf := by
  funext w
  rw [indexOf, h.interned, indexOf]

theorem toExtends (h : b.SamePool c) : b.Extends c :=
  ⟨by rw [h.slots], fun _ _ => by rw [h.slots], fun _ _ => by rw [h.interned]⟩

/-- A step works on the constants only. -/
theorem add (h : b.SamePool c) (w : Wanted) : (b.add w).SamePool (c.add w) := by
  rcases add_cases b w with ⟨hknown, heq⟩ | ⟨hnew, heq⟩
  · rcases add_cases c w with ⟨-, heq'⟩ | ⟨hnew', -⟩
    · rwa [heq, heq']
    · rw [Knows, ← h.interned, hnew'] at hknown
      cases hknown
  · rcases add_cases c w with ⟨hknown', -⟩ | ⟨-, heq'⟩
    · rw [Knows, h.interned, hnew] at hknown'
      cases hknown'
    · rw [heq, heq', h.slots, h.interned, h.indexOf_eq]
      exact ⟨rfl, rfl⟩

theorem foldl (h : b.SamePool c) (ws : List Wanted) :
    (ws.foldl Builder.add b).SamePool (ws.foldl Builder.add c) := by
  induction ws generalizing b c with
  | nil => exact h
  | cons w ws ih => exact ih (h.add w)

end SamePool

/-! ### Gaps -/

theorem gapped_empty (flags : UInt16) : (empty flags).pool.Gapped :=
  ⟨rfl, fun _ hi hne => absurd (Nat.lt_one_iff.mp hi) hne, rfl⟩

theorem gapped_add (h : b.pool.Gapped) (w : Wanted) : (b.add w).pool.Gapped := by
  rcases add_cases b w with ⟨-, heq⟩ | ⟨-, heq⟩
  · rwa [heq]
  · rw [heq]
    exact h.append _

/-- However many constants are asked for, only the slots after wide entries are empty. -/
theorem gapped_foldl (h : b.pool.Gapped) (ws : List Wanted) : (ws.foldl add b).pool.Gapped := by
  induction ws generalizing b with
  | nil => exact h
  | cons w ws ih => exact ih (gapped_add h w)

/-! ### What a pool records -/

/-- The entry of a constant stands at an index, and its parts stand before it. -/
structure Holds (b : Builder) (w : Wanted) (i : UInt16) : Prop where
  slot : b.pool.slot? i = some (w.entry b.indexOf)
  parts : ∀ v ∈ w.parts, b.Knows v ∧ b.indexOf v < i

theorem Holds.extend {c : Builder} {i : UInt16} (h : b.Holds w i) (hc : b.Extends c) :
    c.Holds w i := by
  have hindex : ∀ v ∈ w.parts, c.indexOf v = b.indexOf v :=
    fun v hv => hc.indexOf_eq (h.parts v hv).1
  refine ⟨?_, fun v hv => ⟨hc.knows (h.parts v hv).1, ?_⟩⟩
  · rw [Wanted.entry_congr hindex]
    exact hc.slot?_eq h.slot
  · rw [hindex v hv]
    exact (h.parts v hv).2

/-- The pool after the constants `asked`, in this order: every key that was asked for leads to the
entry of the constant that was the first to be asked for under it, and every entry is led to. -/
structure Recorded (asked : List Wanted) (b : Builder) : Prop where
  known : ∀ w ∈ asked, b.Knows w
  first : ∀ w, b.Knows w →
    ∃ u, asked.find? (fun v => v.key = w.key) = some u ∧ b.Holds u (b.indexOf w)
  owned : ∀ i k, b.pool.slot? i = some k → ∃ w, b.Knows w ∧ b.indexOf w = i

theorem recorded_empty (flags : UInt16) : Recorded [] (empty flags) where
  known w hw := absurd hw List.not_mem_nil
  first w hw := nomatch hw
  owned i k hi := by
    have hempty : (empty flags).pool.slot? i = none := by
      show (#[none] : Array (Option Constant))[i.toNat]?.join = none
      cases i.toNat <;> simp
    rw [hempty] at hi
    cases hi

/-! ### A new entry -/

theorem add_of_new (hnew : b.interned.lookup w.key = none) :
    b.add w = { b with
      slots := b.slots ++ (w.entry b.indexOf).slots.toArray
      interned := (w.key, UInt16.ofNat b.slots.size) :: b.interned } := by
  rcases add_cases b w with ⟨hknown, -⟩ | ⟨-, heq⟩
  · rw [Knows, hnew] at hknown
    cases hknown
  · exact heq

theorem toNat_indexOf_new (hnew : b.interned.lookup w.key = none)
    (hcount : (b.add w).pool.count ≤ 65535) : ((b.add w).indexOf w).toNat = b.slots.size := by
  have hindex : (b.add w).indexOf w = UInt16.ofNat b.slots.size := by
    simp [add_of_new hnew, indexOf]
  rw [hindex]
  exact Bytes.toNat_count (Nat.le_trans (extends_add b w).size_le hcount)

theorem getElem?_new (hnew : b.interned.lookup w.key = none) (k : Nat) :
    (b.add w).slots[b.slots.size + k]? = (w.entry b.indexOf).slots[k]? := by
  rw [add_of_new hnew]
  exact ConstantPool.getElem?_append_slots _ _ k

theorem slot?_new (hnew : b.interned.lookup w.key = none)
    (hcount : (b.add w).pool.count ≤ 65535) :
    (b.add w).pool.slot? ((b.add w).indexOf w) = some (w.entry b.indexOf) := by
  have hhead : (w.entry b.indexOf).slots[0]? = some (some (w.entry b.indexOf)) := by
    rcases (w.entry b.indexOf).slots_eq with ⟨-, hc⟩ | ⟨-, hc⟩ <;> simp [hc]
  rw [ConstantPool.slot?, pool, toNat_indexOf_new hnew hcount, ← Nat.add_zero b.slots.size,
    getElem?_new hnew, hhead]
  rfl

/-- The only entry behind the old slots is the new one: a wide entry is followed by a gap. -/
theorem indexOf_of_slot? (hnew : b.interned.lookup w.key = none)
    (hcount : (b.add w).pool.count ≤ 65535) {i : UInt16} {k : Constant}
    (hi : (b.add w).pool.slot? i = some k) (hge : b.slots.size ≤ i.toNat) :
    (b.add w).indexOf w = i := by
  obtain ⟨n, hn⟩ := Nat.exists_eq_add_of_le hge
  rw [ConstantPool.slot?, pool, hn, getElem?_new hnew] at hi
  have hzero := Constant.eq_zero_of_slots hi
  rw [← UInt16.toNat_inj, toNat_indexOf_new hnew hcount, hn, hzero, Nat.add_zero]

namespace Recorded

variable {asked : List Wanted}

theorem find?_append {v u : Wanted} (hu : asked.find? (fun x => x.key = v.key) = some u)
    (w : Wanted) : (asked ++ [w]).find? (fun x => x.key = v.key) = some u := by
  rw [List.find?_append, hu]
  rfl

theorem find?_new (h : Recorded asked b) (hnew : b.interned.lookup w.key = none) :
    (asked ++ [w]).find? (fun x => x.key = w.key) = some w := by
  have hnone : asked.find? (fun x => x.key = w.key) = none := by
    refine List.find?_eq_none.mpr fun x hx hxw => ?_
    have hknown := h.known x hx
    rw [Knows, of_decide_eq_true hxw, hnew] at hknown
    cases hknown
  rw [List.find?_append, hnone]
  simp

theorem known_append (h : Recorded asked b) (w : Wanted) :
    ∀ v ∈ asked ++ [w], (b.add w).Knows v := by
  intro v hv
  rcases List.mem_append.mp hv with hold | hlast
  · exact (extends_add b w).knows (h.known v hold)
  · rw [List.mem_singleton.mp hlast]
    exact knows_add_self b w

theorem holds_new (h : Recorded asked b) (hparts : ∀ v ∈ w.parts, v ∈ asked)
    (hnew : b.interned.lookup w.key = none) (hcount : (b.add w).pool.count ≤ 65535) :
    (b.add w).Holds w ((b.add w).indexOf w) := by
  have hext := extends_add b w
  have hsame : ∀ v ∈ w.parts, (b.add w).indexOf v = b.indexOf v :=
    fun v hv => hext.indexOf_eq (h.known v (hparts v hv))
  refine ⟨?_, fun v hv => ⟨hext.knows (h.known v (hparts v hv)), ?_⟩⟩
  · rw [Wanted.entry_congr hsame]
    exact slot?_new hnew hcount
  · obtain ⟨u, -, hu⟩ := h.first v (h.known v (hparts v hv))
    rw [hsame v hv, UInt16.lt_iff_toNat_lt, toNat_indexOf_new hnew hcount]
    exact ConstantPool.lt_count_of_slot? hu.slot

theorem add (h : Recorded asked b) (hparts : ∀ v ∈ w.parts, v ∈ asked)
    (hcount : (b.add w).pool.count ≤ 65535) : Recorded (asked ++ [w]) (b.add w) := by
  have hext := extends_add b w
  have hknown := h.known_append w
  rcases add_cases b w with ⟨-, heq⟩ | ⟨hnew, heq⟩
  · rw [heq] at hknown ⊢
    refine ⟨hknown, fun v hv => ?_, h.owned⟩
    obtain ⟨u, hu, hholds⟩ := h.first v hv
    exact ⟨u, find?_append hu w, hholds⟩
  refine ⟨hknown, fun v hv => ?_, fun i k hi => ?_⟩
  · by_cases hkey : v.key = w.key
    · refine ⟨w, ?_, ?_⟩
      · rw [hkey]
        exact h.find?_new hnew
      · rw [indexOf, hkey, ← indexOf]
        exact h.holds_new hparts hnew hcount
    · have hv' : b.Knows v := by
        rw [Knows, heq, List.lookup_cons, beq_false_of_ne hkey] at hv
        exact hv
      obtain ⟨u, hu, hu'⟩ := h.first v hv'
      refine ⟨u, find?_append hu w, ?_⟩
      rw [hext.indexOf_eq hv']
      exact hu'.extend hext
  · rcases Nat.lt_or_ge i.toNat b.slots.size with hlt | hge
    · obtain ⟨v, hv, hvi⟩ := h.owned i k (by
        rw [ConstantPool.slot?, pool, ← hext.slot i.toNat hlt]
        exact hi)
      exact ⟨v, hext.knows hv, (hext.indexOf_eq hv).trans hvi⟩
    · exact ⟨w, knows_add_self b w, indexOf_of_slot? hnew hcount hi hge⟩

end Recorded

/-! ### Sequences of constants -/

/-- Constants each of which comes after its parts, where those of `asked` came before. -/
def Closed (asked : List Wanted) : List Wanted → Prop
  | [] => True
  | w :: ws => (∀ v ∈ w.parts, v ∈ asked) ∧ Closed (asked ++ [w]) ws

theorem closed_append {asked ws vs : List Wanted} (hws : Closed asked ws)
    (hvs : Closed (asked ++ ws) vs) : Closed asked (ws ++ vs) := by
  induction ws generalizing asked with
  | nil => simpa using hvs
  | cons w ws ih => exact ⟨hws.1, ih hws.2 (by simpa using hvs)⟩

theorem closed_steps (asked : List Wanted) (w : Wanted) : Closed asked w.steps := by
  cases w <;> simp [Closed, Wanted.steps, Wanted.parts]

theorem closed_flatMap (asked ws : List Wanted) : Closed asked (ws.flatMap Wanted.steps) := by
  induction ws generalizing asked with
  | nil => exact trivial
  | cons w ws ih => exact closed_append (closed_steps asked w) (ih (asked ++ w.steps))

/-- After any sequence of constants that come after their parts, the pool holds what was asked
for. -/
theorem Recorded.foldl {asked ws : List Wanted} (h : Recorded asked b) (hclosed : Closed asked ws)
    (hcount : (ws.foldl Builder.add b).pool.count ≤ 65535) :
    Recorded (asked ++ ws) (ws.foldl Builder.add b) := by
  induction ws generalizing asked b with
  | nil => simpa using h
  | cons w ws ih =>
    have hstep := h.add hclosed.1
      (Nat.le_trans (extends_foldl (b.add w) ws).size_le hcount)
    simpa using ih hstep hclosed.2 hcount

theorem Recorded.congr {c : Builder} {asked : List Wanted} (h : Recorded asked b)
    (hc : b.SamePool c) : Recorded asked c where
  known w hw := hc.toExtends.knows (h.known w hw)
  first w hw := by
    rw [Knows, hc.interned] at hw
    obtain ⟨u, hu, hholds⟩ := h.first w hw
    refine ⟨u, hu, ?_⟩
    rw [hc.indexOf_eq]
    exact hholds.extend hc.toExtends
  owned i k hi := by
    rw [hc.pool_eq] at hi
    obtain ⟨w, hw, hwi⟩ := h.owned i k hi
    exact ⟨w, hc.toExtends.knows hw, by rwa [hc.indexOf_eq]⟩

end Builder

end Jvm
