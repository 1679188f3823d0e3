import Jvm.Proofs.ClassFile.Resolved
import Jvm.Proofs.Faults
import Mathlib.Data.List.Basic

/-!
# Symbolic look-ups

A constant names others by their indices, and nothing checks these indices before a look-up follows
them. A look-up is a route of hops through the pool: to an index at which an entry of one kind is
wanted, and from there to what this entry names, in order. It succeeds when every hop of its route
does, and otherwise fails as the first hop that does not.
-/

namespace Jvm

/-- A hop of a look-up: an index, and the kind of entry that is wanted there. -/
structure Hop where
  index : UInt16
  want : ConstantTag
  deriving Repr, DecidableEq

/-- The hops from an entry, in the order in which they are made. -/
def Constant.hops : Constant → List Hop
  | .classRef i | .string i | .methodType i => [⟨i, .utf8⟩]
  | .nameAndType i j => [⟨i, .utf8⟩, ⟨j, .utf8⟩]
  | .fieldref i j | .methodref i j | .interfaceMethodref i j =>
    [⟨i, .classRef⟩, ⟨j, .nameAndType⟩]
  | _ => []

/-- How many hops may follow one another from an entry on. -/
def ConstantTag.height : ConstantTag → Nat
  | fieldref | methodref | interfaceMethodref => 2
  | classRef | string | methodType | nameAndType => 1
  | _ => 0

/-- Hops lead downwards, so a pool that refers to itself has no endless routes. -/
theorem Constant.height_lt_of_mem_hops (c : Constant) :
    ∀ h ∈ c.hops, h.want.height < c.tag.height := by
  cases c <;> simp [hops, tag, ConstantTag.height]

namespace ConstantPool

/-! ### Hops -/

/-- A hop that goes well: the index names an entry, and it has the kind that is wanted. -/
def Finds (p : ConstantPool) (h : Hop) (c : Constant) : Prop :=
  p.usable h.index = true ∧ p.slot? h.index = some c ∧ c.tag = h.want

/-- A hop that does not go well, with its fault. -/
inductive Misses (p : ConstantPool) (h : Hop) : Fault → Prop
  | outside (hout : h.index = 0 ∨ p.count ≤ h.index.toNat) :
    Misses p h (invalidIndex s!"#{h.index.toNat} outside [1, {p.count})")
  | gap (hin : ¬ (h.index = 0 ∨ p.count ≤ h.index.toNat)) (hgap : p.slot? h.index = none) :
    Misses p h (invalidIndex s!"#{h.index.toNat} is the unusable slot after a long or double")
  | mistyped {c : Constant} (husable : p.usable h.index = true) (hc : p.slot? h.index = some c)
      (htag : c.tag ≠ h.want) :
    Misses p h (wrongEntry h.index c.tag h.want.name)

variable {p : ConstantPool} {h : Hop} {c d : Constant} {f : Fault}

theorem Finds.unique (hc : p.Finds h c) (hd : p.Finds h d) : c = d :=
  Option.some.inj (hc.2.1.symm.trans hd.2.1)

theorem not_usable_of_outside {i : UInt16} (hout : i = 0 ∨ p.count ≤ i.toNat) :
    p.usable i = false := by
  rcases hout with rfl | hle
  · rfl
  · rw [usable, slot?, Array.getElem?_eq_none hle]
    simp

theorem entry_cases (p : ConstantPool) (h : Hop) :
    (∃ c, p.usable h.index = true ∧ p.slot? h.index = some c ∧ p.entry h.index = .ok c) ∨
      ∃ f, p.usable h.index = false ∧ p.Misses h f ∧ p.entry h.index = .error f := by
  unfold entry
  split
  · rename_i hout
    exact .inr ⟨_, not_usable_of_outside hout, .outside hout, rfl⟩
  · rename_i hin
    cases hslot : p.slot? h.index with
    | none => exact .inr ⟨_, by simp [usable, hslot], .gap hin hslot, rfl⟩
    | some c =>
      have hne : h.index ≠ 0 := fun hzero => hin (.inl hzero)
      exact .inl ⟨c, by simp [usable, hslot, hne], rfl, rfl⟩

/-- An index that names no entry is an index fault, and an entry of another kind a mismatch. -/
theorem Misses.kind_cause (hf : p.Misses h f) :
    if p.usable h.index then f.kind = .typeMismatch ∧ f.cause? = some .typeMismatch
    else f.kind = .index ∧ f.cause? = some .invalidConstantIndex := by
  cases hf with
  | outside hout =>
    rw [not_usable_of_outside hout]
    exact ⟨rfl, rfl⟩
  | gap hin hgap =>
    rw [usable, hgap]
    simp [invalidIndex]
  | mistyped husable =>
    rw [husable]
    exact ⟨rfl, rfl⟩

theorem Misses.not_finds (hf : p.Misses h f) (c : Constant) : ¬ p.Finds h c := by
  rintro ⟨husable, hslot, htag⟩
  cases hf with
  | outside hout => exact Bool.false_ne_true ((not_usable_of_outside hout).symm.trans husable)
  | gap _ hgap => cases hgap.symm.trans hslot
  | mistyped _ hc hne =>
    cases hc.symm.trans hslot
    exact hne htag

theorem Misses.unique {g : Fault} (hf : p.Misses h f) (hg : p.Misses h g) : f = g := by
  cases hf with
  | outside hout =>
    cases hg with
    | outside => rfl
    | gap hin => exact absurd hout hin
    | mistyped husable => exact absurd husable (by simp [not_usable_of_outside hout])
  | gap hin hgap =>
    cases hg with
    | outside hout => exact absurd hout hin
    | gap => rfl
    | mistyped _ hc => cases hgap.symm.trans hc
  | mistyped husable hc =>
    cases hg with
    | outside hout => exact absurd husable (by simp [not_usable_of_outside hout])
    | gap _ hgap => cases hgap.symm.trans hc
    | mistyped _ hc' =>
      cases hc.symm.trans hc'
      rfl

/-! ### Routes -/

def found? (p : ConstantPool) (h : Hop) : Option Constant :=
  if p.usable h.index then (p.slot? h.index).filter fun c => c.tag = h.want else none

theorem found?_eq_some_iff : p.found? h = some c ↔ p.Finds h c := by
  unfold found? Finds
  split <;> simp_all

/-- At most `n` hops one after the other, from `h` on. -/
def routeWithin (p : ConstantPool) : Nat → Hop → List Hop
  | 0, _ => []
  | n + 1, h => h :: ((p.found? h).toList.flatMap fun c => c.hops.flatMap (p.routeWithin n))

/-- The hops of a look-up in the order in which they are made. A hop that misses leads nowhere. -/
def route (p : ConstantPool) (h : Hop) : List Hop := p.routeWithin (h.want.height + 1) h

theorem routeWithin_eq {m n : Nat} {h : Hop} (hm : h.want.height < m) (hn : h.want.height < n) :
    p.routeWithin m h = p.routeWithin n h := by
  induction m generalizing n h with
  | zero => exact absurd hm (Nat.not_lt_zero _)
  | succ m ih =>
    obtain ⟨n, rfl⟩ := Nat.exists_eq_add_one_of_ne_zero (Nat.ne_zero_of_lt hn)
    rw [routeWithin, routeWithin]
    congr 1
    refine List.flatMap_congr fun c hc => List.flatMap_congr fun g hg => ?_
    have htag : c.tag = h.want := (found?_eq_some_iff.mp (Option.mem_toList.mp hc)).2.2
    have hdown := c.height_lt_of_mem_hops g hg
    rw [htag] at hdown
    exact ih (by omega) (by omega)

theorem route_eq (p : ConstantPool) (h : Hop) :
    p.route h = h :: ((p.found? h).toList.flatMap fun c => c.hops.flatMap p.route) := by
  show p.routeWithin (h.want.height + 1) h = _
  rw [routeWithin]
  congr 1
  refine List.flatMap_congr fun c hc => List.flatMap_congr fun g hg => ?_
  have htag : c.tag = h.want := (found?_eq_some_iff.mp (Option.mem_toList.mp hc)).2.2
  exact routeWithin_eq (htag ▸ c.height_lt_of_mem_hops g hg) (Nat.lt_succ_self _)

def string? : Constant → Option String
  | .utf8 value _ => some value
  | _ => none

def strings (p : ConstantPool) (route : List Hop) : List String :=
  route.filterMap fun h => (p.found? h).bind string?

/-! ### Results of look-ups -/

section

variable {α β : Type} {texts : α → List String} {r r₁ r₂ : List Hop}

/-- A look-up succeeds when every hop of the route goes well, with the strings on the route, and
otherwise fails as the first hop that does not go well. -/
structure Follows (p : ConstantPool) (route : List Hop) (texts : α → List String)
    (result : Except Fault α) : Prop where
  succeeds_iff : (∃ a, result = .ok a) ↔ ∀ h ∈ route, ∃ c, p.Finds h c
  texts_eq : ∀ a, result = .ok a → texts a = p.strings route
  fails_iff : ∀ f, result = .error f ↔ ∃ before h after, route = before ++ h :: after ∧
    (∀ g ∈ before, ∃ c, p.Finds g c) ∧ p.Misses h f

/-- The first hop that misses stands where it stands, and no other fault is first. -/
theorem first_miss {before after : List Hop} (hfinds : ∀ g ∈ before, ∃ c, p.Finds g c)
    (hf : p.Misses h f) {before' after' : List Hop} {h' : Hop} {f' : Fault}
    (heq : before ++ h :: after = before' ++ h' :: after')
    (hfinds' : ∀ g ∈ before', ∃ c, p.Finds g c) (hf' : p.Misses h' f') : f = f' := by
  induction before generalizing before' with
  | nil =>
    cases before' with
    | nil =>
      cases heq
      exact hf.unique hf'
    | cons g before' =>
      cases heq
      obtain ⟨c, hc⟩ := hfinds' h (List.mem_cons_self ..)
      exact absurd hc (hf.not_finds c)
  | cons g before ih =>
    cases before' with
    | nil =>
      cases heq
      obtain ⟨c, hc⟩ := hfinds _ (List.mem_cons_self ..)
      exact absurd hc (hf'.not_finds c)
    | cons g' before' =>
      exact ih (fun x hx => hfinds x (List.mem_cons_of_mem _ hx)) (List.cons.inj heq).2
        fun x hx => hfinds' x (List.mem_cons_of_mem _ hx)

namespace Follows

theorem of_ok {a : α} (hfinds : ∀ h ∈ r, ∃ c, p.Finds h c) (htexts : texts a = p.strings r) :
    p.Follows r texts (.ok a) where
  succeeds_iff := ⟨fun _ => hfinds, fun _ => ⟨a, rfl⟩⟩
  texts_eq := by
    rintro _ ⟨⟩
    exact htexts
  fails_iff f := by
    refine ⟨nofun, ?_⟩
    rintro ⟨before, h, after, rfl, -, hf⟩
    obtain ⟨c, hc⟩ := hfinds h (by simp)
    exact absurd hc (hf.not_finds c)

theorem of_error {before after : List Hop} (hfinds : ∀ g ∈ before, ∃ c, p.Finds g c)
    (hf : p.Misses h f) : p.Follows (before ++ h :: after) texts (.error f) where
  succeeds_iff := by
    refine ⟨nofun, fun hall => ?_⟩
    obtain ⟨c, hc⟩ := hall h (by simp)
    exact absurd hc (hf.not_finds c)
  texts_eq := nofun
  fails_iff g := by
    constructor
    · rintro ⟨⟩
      exact ⟨before, h, after, rfl, hfinds, hf⟩
    · rintro ⟨before', h', after', heq, hfinds', hg⟩
      rw [first_miss hfinds hf heq hfinds' hg]

/-- A look-up fails at its first hop, whatever the rest of the route is. -/
theorem of_miss {after : List Hop} (hf : p.Misses h f) :
    p.Follows (h :: after) texts (.error f) :=
  of_error (List.forall_mem_nil _) hf

theorem bind {t₁ : α → List String} {t₂ : α → β → List String} {texts : β → List String}
    {x : Except Fault α} {k : α → Except Fault β} (hx : p.Follows r₁ t₁ x)
    (hk : ∀ a, x = .ok a → p.Follows r₂ (t₂ a) (k a))
    (htexts : ∀ a b, k a = .ok b → texts b = t₁ a ++ t₂ a b) :
    p.Follows (r₁ ++ r₂) texts (x >>= k) := by
  cases x with
  | error f =>
    obtain ⟨before, h, after, rfl, hfinds, hf⟩ := (hx.fails_iff f).mp rfl
    rw [List.append_assoc]
    exact of_error hfinds hf
  | ok a =>
    have hfirst := hx.succeeds_iff.mp ⟨a, rfl⟩
    have hsecond := hk a rfl
    show p.Follows (r₁ ++ r₂) texts (k a)
    cases hka : k a with
    | error f =>
      obtain ⟨before, h, after, rfl, hfinds, hf⟩ := (hsecond.fails_iff f).mp hka
      rw [← List.append_assoc]
      exact of_error (fun g hg => (List.mem_append.mp hg).elim (hfirst g) (hfinds g)) hf
    | ok b =>
      have hrest := hsecond.succeeds_iff.mp ⟨b, hka⟩
      refine of_ok (fun g hg => (List.mem_append.mp hg).elim (hfirst g) (hrest g)) ?_
      rw [htexts a b hka, hx.texts_eq a rfl, hsecond.texts_eq b hka, strings, strings, strings,
        List.filterMap_append]

theorem pure (a : α) : p.Follows [] (fun _ => []) (.ok a) :=
  of_ok (fun _ hmem => absurd hmem List.not_mem_nil) rfl

end Follows

/-- A look-up starts at an entry of the kind that it wants, and goes on from there as this entry
says. -/
theorem entryAs_follows {want : ConstantTag} {part : Constant → Option α}
    {k : α → Except Fault β} {texts : β → List String} (index : UInt16)
    (hpart : ∀ c, (part c).isSome = true ↔ c.tag = want) (hwant : want ≠ .utf8)
    (hk : ∀ c a, part c = some a → p.Follows (c.hops.flatMap p.route) texts (k a)) :
    p.Follows (p.route ⟨index, want⟩) texts (p.entryAs index want part >>= k) := by
  rw [route_eq]
  unfold entryAs
  rcases p.entry_cases ⟨index, want⟩ with ⟨c, husable, hslot, hentry⟩ | ⟨f, -, hf, hentry⟩
  · rw [hentry, Fault.ok_bind]
    cases ha : part c with
    | none =>
      have htag : c.tag ≠ want := fun htag => by simpa [ha] using (hpart c).mpr htag
      exact Follows.of_miss (.mistyped husable hslot htag)
    | some a =>
      have htag : c.tag = want := (hpart c).mp (by rw [ha]; rfl)
      have hfinds : p.Finds ⟨index, want⟩ c := ⟨husable, hslot, htag⟩
      -- The first hop gives no string of its own.
      have hnone : p.strings [⟨index, want⟩] = [] := by
        have hc : string? c = none := by
          cases c with
          | utf8 => exact absurd htag.symm hwant
          | _ => rfl
        simp [strings, found?_eq_some_iff.mpr hfinds, hc]
      rw [found?_eq_some_iff.mpr hfinds, Option.toList_some, List.flatMap_singleton]
      have hfirst : p.Follows [⟨index, want⟩] (fun _ => []) (.ok a) :=
        Follows.of_ok (by simpa using ⟨c, hfinds⟩) hnone.symm
      have hrest : ∀ b, (.ok a : Except Fault α) = .ok b →
          p.Follows (c.hops.flatMap p.route) texts (k b) := by
        rintro _ ⟨⟩
        exact hk c a ha
      exact hfirst.bind hrest fun _ _ _ => rfl
  · rw [hentry]
    exact Follows.of_miss hf

end

/-! ### The accessors -/

/-- The strings of a member reference, in the order in which they are looked up. -/
def memberStrings (r : MemberRef) : List String := [r.className, r.name, r.descriptor]

theorem utf8_follows (p : ConstantPool) (index : UInt16) :
    p.Follows (p.route ⟨index, .utf8⟩) (fun s => [s]) (p.utf8 index) := by
  rw [route_eq]
  unfold utf8 entryAs
  rcases p.entry_cases ⟨index, .utf8⟩ with ⟨c, husable, hslot, hentry⟩ | ⟨f, -, hf, hentry⟩
  · rw [hentry]
    cases c with
    | utf8 value raw =>
      have hfinds : p.Finds ⟨index, .utf8⟩ (.utf8 value raw) := ⟨husable, hslot, rfl⟩
      have hfound := found?_eq_some_iff.mpr hfinds
      rw [hfound]
      refine Follows.of_ok (by simpa [Constant.hops] using ⟨_, hfinds⟩) ?_
      simp [strings, hfound, Constant.hops, string?]
    | _ => exact Follows.of_miss (.mistyped husable hslot nofun)
  · rw [hentry]
    exact Follows.of_miss hf

theorem name_follows {want : ConstantTag} {part : Constant → Option UInt16} (p : ConstantPool)
    (index : UInt16) (hwant : want ≠ .utf8) (hpart : ∀ c, (part c).isSome = true ↔ c.tag = want)
    (hhops : ∀ c i, part c = some i → c.hops = [⟨i, .utf8⟩]) :
    p.Follows (p.route ⟨index, want⟩) (fun s => [s]) (p.entryAs index want part >>= p.utf8) := by
  refine p.entryAs_follows index hpart hwant fun c i hc => ?_
  rw [hhops c i hc, List.flatMap_singleton]
  exact p.utf8_follows i

theorem className_follows (p : ConstantPool) (index : UInt16) :
    p.Follows (p.route ⟨index, .classRef⟩) (fun s => [s]) (p.className index) := by
  refine p.name_follows index nofun (fun c => ?_) fun c i hc => ?_
  · cases c <;> simp [Constant.tag]
  · cases c <;> cases hc
    rfl

theorem string_follows (p : ConstantPool) (index : UInt16) :
    p.Follows (p.route ⟨index, .string⟩) (fun s => [s]) (p.string index) := by
  refine p.name_follows index nofun (fun c => ?_) fun c i hc => ?_
  · cases c <;> simp [Constant.tag]
  · cases c <;> cases hc
    rfl

theorem methodType_follows (p : ConstantPool) (index : UInt16) :
    p.Follows (p.route ⟨index, .methodType⟩) (fun s => [s]) (p.methodType index) := by
  refine p.name_follows index nofun (fun c => ?_) fun c i hc => ?_
  · cases c <;> simp [Constant.tag]
  · cases c <;> cases hc
    rfl

theorem nameAndType_follows (p : ConstantPool) (index : UInt16) :
    p.Follows (p.route ⟨index, .nameAndType⟩) (fun (name, descriptor) => [name, descriptor])
      (p.nameAndType index) := by
  refine p.entryAs_follows index (fun c => ?_) nofun fun c ⟨i, j⟩ hc => ?_
  · cases c <;> simp [Constant.tag]
  · have hhops : c.hops = [⟨i, .utf8⟩, ⟨j, .utf8⟩] := by
      cases c <;> cases hc
      rfl
    have hroute : c.hops.flatMap p.route =
        p.route ⟨i, .utf8⟩ ++ (p.route ⟨j, .utf8⟩ ++ []) := by
      rw [hhops]
      rfl
    rw [hroute]
    have hrest (name : String) : p.Follows (p.route ⟨j, .utf8⟩ ++ [])
        (fun (_, descriptor) => [descriptor]) (p.utf8 j >>= fun d => pure (name, d)) :=
      (p.utf8_follows j).bind (fun d _ => Follows.pure (name, d)) fun _ _ hb => by
        cases hb
        rfl
    refine (p.utf8_follows i).bind (fun name _ => hrest name) fun name b hb => ?_
    obtain ⟨descriptor, -, hpair⟩ := Fault.bind_eq_ok.mp hb
    cases hpair
    rfl

theorem memberRef_follows (p : ConstantPool) (i j : UInt16) :
    p.Follows (p.route ⟨i, .classRef⟩ ++ p.route ⟨j, .nameAndType⟩) memberStrings
      (p.memberRef i j) := by
  have hrest (className : String) : p.Follows (p.route ⟨j, .nameAndType⟩ ++ [])
      (fun r : MemberRef => [r.name, r.descriptor])
      (p.nameAndType j >>= fun (name, descriptor) =>
        pure { className, name, descriptor }) :=
    (p.nameAndType_follows j).bind (fun _ _ => Follows.pure _) fun _ _ hb => by
      cases hb
      rfl
  rw [← List.append_nil (p.route ⟨j, .nameAndType⟩)]
  refine (p.className_follows i).bind (fun className _ => hrest className) fun className r hr => ?_
  obtain ⟨pair, -, hpair⟩ := Fault.bind_eq_ok.mp hr
  cases hpair
  rfl

theorem member_follows {want : ConstantTag} {part : Constant → Option (UInt16 × UInt16)}
    (p : ConstantPool) (index : UInt16) (hwant : want ≠ .utf8)
    (hpart : ∀ c, (part c).isSome = true ↔ c.tag = want)
    (hhops : ∀ c i j, part c = some (i, j) → c.hops = [⟨i, .classRef⟩, ⟨j, .nameAndType⟩]) :
    p.Follows (p.route ⟨index, want⟩) memberStrings
      (p.entryAs index want part >>= fun (i, j) => p.memberRef i j) := by
  refine p.entryAs_follows index hpart hwant fun c ⟨i, j⟩ hc => ?_
  have hroute : c.hops.flatMap p.route =
      p.route ⟨i, .classRef⟩ ++ p.route ⟨j, .nameAndType⟩ := by
    rw [hhops c i j hc, List.flatMap_cons, List.flatMap_singleton]
  rw [hroute]
  exact p.memberRef_follows i j

theorem fieldref_follows (p : ConstantPool) (index : UInt16) :
    p.Follows (p.route ⟨index, .fieldref⟩) memberStrings (p.fieldref index) := by
  refine p.member_follows index nofun (fun c => ?_) fun c i j hc => ?_
  · cases c <;> simp [Constant.tag]
  · cases c <;> cases hc
    rfl

theorem methodref_follows (p : ConstantPool) (index : UInt16) :
    p.Follows (p.route ⟨index, .methodref⟩) memberStrings (p.methodref index) := by
  refine p.member_follows index nofun (fun c => ?_) fun c i j hc => ?_
  · cases c <;> simp [Constant.tag]
  · cases c <;> cases hc
    rfl

theorem interfaceMethodref_follows (p : ConstantPool) (index : UInt16) :
    p.Follows (p.route ⟨index, .interfaceMethodref⟩) memberStrings
      (p.interfaceMethodref index) := by
  refine p.member_follows index nofun (fun c => ?_) fun c i j hc => ?_
  · cases c <;> simp [Constant.tag]
  · cases c <;> cases hc
    rfl

/-- A look-up of a method of either kind takes the one of the two look-ups that the kind of the entry
asks for. -/
theorem anyMethodref_eq_ok (p : ConstantPool) (index : UInt16) (r : MemberRef) :
    (p.anyMethodref index = .ok (r, false) ↔ p.methodref index = .ok r) ∧
      (p.anyMethodref index = .ok (r, true) ↔ p.interfaceMethodref index = .ok r) := by
  have hpair (x : Except Fault MemberRef) (a b : Bool) :
      (x >>= fun r => pure (r, a)) = (.ok (r, b) : Except Fault (MemberRef × Bool)) ↔
        x = .ok r ∧ a = b := by
    refine Fault.bind_eq_ok.trans ⟨?_, ?_⟩
    · rintro ⟨r', hx, hr⟩
      cases hr
      exact ⟨hx, rfl⟩
    · rintro ⟨hx, rfl⟩
      exact ⟨r, hx, rfl⟩
  unfold anyMethodref methodref interfaceMethodref entryAs
  cases p.entry index with
  | error f => exact ⟨⟨nofun, nofun⟩, nofun, nofun⟩
  | ok c =>
    cases c with
    | methodref i j =>
      exact ⟨(hpair (p.memberRef i j) false false).trans (and_iff_left rfl),
        (hpair (p.memberRef i j) false true).trans ⟨nofun, nofun⟩⟩
    | interfaceMethodref i j =>
      exact ⟨(hpair (p.memberRef i j) true false).trans ⟨nofun, nofun⟩,
        (hpair (p.memberRef i j) true true).trans (and_iff_left rfl)⟩
    | _ => exact ⟨⟨nofun, nofun⟩, nofun, nofun⟩

/-- Every accessor follows the route of its kind of entry, whatever the pool is: it succeeds with the
strings on the route when all hops go well, and fails as the first hop that does not. This is an
index fault where the index names no entry, and a mismatch where it names one of another kind. The
accessor for methods of either kind has the results of the two others, and no more. -/
theorem lookups_follow_routes (p : ConstantPool) (index : UInt16) :
    p.Follows (p.route ⟨index, .utf8⟩) (fun s => [s]) (p.utf8 index) ∧
    p.Follows (p.route ⟨index, .classRef⟩) (fun s => [s]) (p.className index) ∧
    p.Follows (p.route ⟨index, .nameAndType⟩) (fun (name, descriptor) => [name, descriptor])
      (p.nameAndType index) ∧
    p.Follows (p.route ⟨index, .string⟩) (fun s => [s]) (p.string index) ∧
    p.Follows (p.route ⟨index, .fieldref⟩) memberStrings (p.fieldref index) ∧
    p.Follows (p.route ⟨index, .methodref⟩) memberStrings (p.methodref index) ∧
    p.Follows (p.route ⟨index, .interfaceMethodref⟩) memberStrings (p.interfaceMethodref index) ∧
    p.Follows (p.route ⟨index, .methodType⟩) (fun s => [s]) (p.methodType index) ∧
    (∀ h f, p.Misses h f →
      if p.usable h.index then f.kind = .typeMismatch ∧ f.cause? = some .typeMismatch
      else f.kind = .index ∧ f.cause? = some .invalidConstantIndex) ∧
    (∀ r, p.anyMethodref index = .ok (r, false) ↔ p.methodref index = .ok r) ∧
    (∀ r, p.anyMethodref index = .ok (r, true) ↔ p.interfaceMethodref index = .ok r) ∧
    ((∃ f, p.anyMethodref index = .error f) ↔
      (∃ f, p.methodref index = .error f) ∧ ∃ f, p.interfaceMethodref index = .error f) := by
  have hany := p.anyMethodref_eq_ok index
  refine ⟨p.utf8_follows index, p.className_follows index, p.nameAndType_follows index,
    p.string_follows index, p.fieldref_follows index, p.methodref_follows index,
    p.interfaceMethodref_follows index, p.methodType_follows index, fun h f hf => hf.kind_cause,
    fun r => (hany r).1, fun r => (hany r).2, ?_⟩
  have hfails {α : Type} (x : Except Fault α) : (∃ f, x = .error f) ↔ ∀ a, x ≠ .ok a := by
    cases x with
    | error f => exact ⟨fun _ => nofun, fun _ => ⟨f, rfl⟩⟩
    | ok a => exact ⟨fun ⟨_, h⟩ => (nomatch h), fun h => absurd rfl (h a)⟩
  simp only [hfails, Prod.forall, Bool.forall_bool, ne_eq, (hany _).1, (hany _).2, forall_and]

/-- A class that is named by itself, in a field reference whose other half does not exist: the look-up
gets as far as the name of the class, which is no string. -/
theorem lookups_follow_routes_loop :
    route ⟨#[none, some (.classRef 1), some (.fieldref 1 9)]⟩ ⟨2, .fieldref⟩ =
      [⟨2, .fieldref⟩, ⟨1, .classRef⟩, ⟨1, .utf8⟩, ⟨9, .nameAndType⟩] ∧
    ∃ f, ConstantPool.fieldref ⟨#[none, some (.classRef 1), some (.fieldref 1 9)]⟩ 2 = .error f ∧
      f = wrongEntry 1 .classRef "Utf8" ∧ f.cause? = some .typeMismatch := by
  obtain ⟨-, -, -, -, hfieldref, -, -, -, hkind, -⟩ :=
    lookups_follow_routes ⟨#[none, some (.classRef 1), some (.fieldref 1 9)]⟩ 2
  have hmiss : Misses ⟨#[none, some (.classRef 1), some (.fieldref 1 9)]⟩ ⟨1, .utf8⟩
      (wrongEntry 1 .classRef "Utf8") :=
    Misses.mistyped rfl (c := .classRef 1) rfl (by decide)
  refine ⟨rfl, _, (hfieldref.fails_iff _).mpr ⟨[⟨2, .fieldref⟩, ⟨1, .classRef⟩], ⟨1, .utf8⟩,
    [⟨9, .nameAndType⟩], rfl, ?_, hmiss⟩, rfl, (hkind _ _ hmiss).2⟩
  exact List.forall_mem_cons.mpr ⟨⟨.fieldref 1 9, rfl, rfl, rfl⟩,
    List.forall_mem_singleton.mpr ⟨.classRef 1, rfl, rfl, rfl⟩⟩

end ConstantPool

end Jvm
