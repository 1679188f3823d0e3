import Jvm.Proofs.Machine.FieldSearch
import Jvm.Proofs.Machine.LoadOrder

/-!
# Searching without memory

To leave out the names that were visited hides nothing. A name may be left out because the search
from it has found nothing, or because the search from it is still going on; a search that remembers
nothing and comes to such a name again does not end. So whenever it does end, both searches give the
same answer.
-/

namespace Jvm

namespace Loader

/-! ### The search that remembers nothing -/

/-- What a plain search comes to, and the area that it leaves; nothing when it does not end. -/
abbrev PlainOutcome (α : Type) := Option (Except Fault (Option α) × MethodArea)

/-- Goes on with the next search where one ends and has found nothing. -/
def orElse {α : Type} (o : PlainOutcome α) (next : MethodArea → PlainOutcome α) : PlainOutcome α :=
  match o with
  | some (.ok none, b) => next b
  | outcome => outcome

def plainInterfaces {α : Type} (l : Loader) (search : Class → MethodArea → PlainOutcome α) :
    List String → MethodArea → PlainOutcome α
  | [], a => some (.ok none, a)
  | n :: rest, a =>
    match l.ensure n a with
    | (.error f, b) => some (.error f, b)
    | (.ok i, b) => orElse (search i b) (l.plainInterfaces search rest)

/-- Looks for a field in the class, then in its interfaces, then in its superclass, and remembers
nothing. There is no outcome when the calls nest deeper than `depth`. -/
def plainField (l : Loader) (name descriptor : String) :
    Nat → Class → MethodArea → PlainOutcome (Class × Field)
  | 0, _, _ => none
  | depth + 1, c, a =>
    match c.file.field? name descriptor with
    | some f => some (.ok (some (c, f)), a)
    | none =>
      orElse (l.plainInterfaces (l.plainField name descriptor depth) c.file.interfaceNames a)
        fun b => match c.super? with
          | some parent => l.plainField name descriptor depth parent b
          | none => some (.ok none, b)

def plainSearch (l : Loader) (name descriptor : String) (depth : Nat) :
    SearchSite → MethodArea → PlainOutcome (Class × Field)
  | .cls c, a => l.plainField name descriptor depth c a
  | .interfaces names, a => l.plainInterfaces (l.plainField name descriptor depth) names a

theorem orElse_eq_some {α : Type} {o : PlainOutcome α} {next : MethodArea → PlainOutcome α}
    {r : Except Fault (Option α)} {b : MethodArea} (h : orElse o next = some (r, b)) :
    ∃ r₁ b₁, o = some (r₁, b₁) ∧
      (r₁ ≠ .ok none ∧ r = r₁ ∨ r₁ = .ok none ∧ next b₁ = some (r, b)) := by
  rcases o with _ | ⟨f | (_ | found), b₁⟩
  · cases h
  · cases h
    exact ⟨_, _, rfl, .inl ⟨nofun, rfl⟩⟩
  · exact ⟨_, _, rfl, .inr ⟨rfl, h⟩⟩
  · cases h
    exact ⟨_, _, rfl, .inl ⟨nofun, rfl⟩⟩

theorem orElse_mono {α : Type} {o o' : PlainOutcome α} {next next' : MethodArea → PlainOutcome α}
    (ho : ∀ x, o = some x → o' = some x) (hnext : ∀ b x, next b = some x → next' b = some x)
    {x : Except Fault (Option α) × MethodArea} (h : orElse o next = some x) :
    orElse o' next' = some x := by
  rcases o with _ | ⟨f | (_ | found), b⟩
  · cases h
  · rw [ho _ rfl]
    exact h
  · rw [ho _ rfl]
    exact hnext b x h
  · rw [ho _ rfl]
    exact h

theorem plainField_inv {l : Loader} {name descriptor : String} {depth : Nat} {c : Class}
    {a b : MethodArea} {r : Except Fault (Option (Class × Field))}
    (hfield : c.file.field? name descriptor = none)
    (h : l.plainField name descriptor (depth + 1) c a = some (r, b)) :
    ∃ r₁ b₁, l.plainSearch name descriptor depth (.interfaces c.file.interfaceNames) a =
        some (r₁, b₁) ∧
      (r₁ ≠ .ok none ∧ r = r₁ ∨
        r₁ = .ok none ∧ (match c.super? with
          | some parent => l.plainField name descriptor depth parent b₁
          | none => some (.ok none, b₁)) = some (r, b)) := by
  simp only [plainField, hfield] at h
  exact orElse_eq_some h

/-! ### What is loaded makes no difference -/

/-- The area is linked, and all of it comes from the loader. -/
structure Stocks (l : Loader) (a : MethodArea) : Prop where
  linked : a.Linked
  sources : l.Sources a

theorem Stocks.empty (l : Loader) : l.Stocks .empty := ⟨.empty, .empty l⟩

theorem preserves_stocks (l : Loader) : l.Preserves l.Stocks :=
  fun _ name h => ⟨l.ensure_linked name h.linked, l.ensure_sources name h.sources⟩

/-- A request has the same answer in any two areas. -/
theorem Stocks.answer {l : Loader} {a a' : MethodArea} (hbounded : l.Bounded) (h : l.Stocks a)
    (h' : l.Stocks a') (n : String) : (l.ensure n a').1 = (l.ensure n a).1 := by
  rw [ensure_answer hbounded h.linked h.sources, ensure_answer hbounded h'.linked h'.sources]

theorem Stocks.ensure_eq {l : Loader} {a a' b : MethodArea} {n : String} {r : Except Fault Class}
    (hbounded : l.Bounded) (h : l.Stocks a) (h' : l.Stocks a') (hload : l.ensure n a = (r, b)) :
    ∃ b', l.ensure n a' = (r, b') ∧ l.Stocks b' := by
  have hanswer := h.answer hbounded h' n
  rw [hload] at hanswer
  exact ⟨(l.ensure n a').2, Prod.ext hanswer rfl, l.preserves_stocks a' n h'⟩

/-- Two plain searches come to the same. -/
inductive Agree {α : Type} (l : Loader) : PlainOutcome α → PlainOutcome α → Prop where
  | endless : Agree l none none
  | ended {r : Except Fault (Option α)} {b b' : MethodArea} (hb : l.Stocks b) (hb' : l.Stocks b') :
    Agree l (some (r, b)) (some (r, b'))

section

variable {l : Loader} {a a' b b' : MethodArea} {name descriptor : String}

theorem Agree.orElse {α : Type} {o o' : PlainOutcome α} {next next' : MethodArea → PlainOutcome α}
    (h : l.Agree o o')
    (hnext : ∀ {b b'}, l.Stocks b → l.Stocks b' → l.Agree (next b) (next' b')) :
    l.Agree (Loader.orElse o next) (Loader.orElse o' next') := by
  cases h with
  | endless => exact .endless
  | @ended r _ _ hb hb' =>
    rcases r with f | (_ | found)
    · exact .ended hb hb'
    · exact hnext hb hb'
    · exact .ended hb hb'

theorem plainInterfaces_agree {α : Type} (hbounded : l.Bounded)
    {search : Class → MethodArea → PlainOutcome α}
    (hsearch : ∀ (i : Class) ⦃a a' : MethodArea⦄, l.Stocks a → l.Stocks a' →
      l.Agree (search i a) (search i a'))
    (names : List String) (ha : l.Stocks a) (ha' : l.Stocks a') :
    l.Agree (l.plainInterfaces search names a) (l.plainInterfaces search names a') := by
  induction names generalizing a a' with
  | nil => exact .ended ha ha'
  | cons n rest ih =>
    have hb := l.preserves_stocks a n ha
    rcases hload : l.ensure n a with ⟨x, b⟩
    obtain ⟨b', hload', hb'⟩ := ha.ensure_eq hbounded ha' hload
    rw [hload] at hb
    simp only [plainInterfaces, hload, hload']
    cases x with
    | error f => exact .ended hb hb'
    | ok i => exact (hsearch i hb hb').orElse fun hc hc' => ih hc hc'

/-- What the plain search comes to does not depend on what is loaded. -/
theorem plainField_agree (hbounded : l.Bounded) (name descriptor : String) (depth : Nat)
    (c : Class) (ha : l.Stocks a) (ha' : l.Stocks a') :
    l.Agree (l.plainField name descriptor depth c a) (l.plainField name descriptor depth c a') := by
  induction depth generalizing c a a' with
  | zero => exact .endless
  | succ depth ih =>
    simp only [plainField]
    cases c.file.field? name descriptor with
    | some f => exact .ended ha ha'
    | none =>
      have hinterfaces :=
        plainInterfaces_agree hbounded (fun i _ _ => ih i) c.file.interfaceNames ha ha'
      refine hinterfaces.orElse fun hb hb' => ?_
      cases c.super? with
      | none => exact .ended hb hb'
      | some p => exact ih p hb hb'

theorem plainField_from_empty (hbounded : l.Bounded) {depth : Nat} {c : Class}
    {r : Except Fault (Option (Class × Field))} (ha : l.Stocks a)
    (h : l.plainField name descriptor depth c a = some (r, b)) :
    ∃ b', l.plainField name descriptor depth c .empty = some (r, b') := by
  have hagree := plainField_agree hbounded name descriptor depth c ha (Stocks.empty l)
  rw [h] at hagree
  generalize l.plainField name descriptor depth c .empty = o at hagree ⊢
  cases hagree with
  | ended hb hb' => exact ⟨_, rfl⟩

theorem plainSearch_stocks (hbounded : l.Bounded) {depth : Nat} (site : SearchSite)
    {r : Except Fault (Option (Class × Field))} (ha : l.Stocks a)
    (h : l.plainSearch name descriptor depth site a = some (r, b)) : l.Stocks b := by
  have hagree : l.Agree (l.plainSearch name descriptor depth site a)
      (l.plainSearch name descriptor depth site a) := by
    cases site with
    | cls c => exact plainField_agree hbounded name descriptor depth c ha ha
    | interfaces names =>
      exact plainInterfaces_agree hbounded
        (fun i _ _ => plainField_agree hbounded name descriptor depth i) names ha ha
  rw [h] at hagree
  cases hagree with
  | ended hb hb' => exact hb

/-! ### Deeper searches -/

theorem plainInterfaces_mono {α : Type} {search search' : Class → MethodArea → PlainOutcome α}
    (hsearch : ∀ {i a x}, search i a = some x → search' i a = some x) {names : List String}
    {x : Except Fault (Option α) × MethodArea}
    (h : l.plainInterfaces search names a = some x) :
    l.plainInterfaces search' names a = some x := by
  induction names generalizing a x with
  | nil => exact h
  | cons n rest ih =>
    simp only [plainInterfaces] at h ⊢
    generalize l.ensure n a = loaded at h ⊢
    obtain ⟨f | i, b⟩ := loaded
    · exact h
    · exact orElse_mono (fun x => hsearch) (fun b x => ih) h

theorem plainField_succ {depth : Nat} {c : Class}
    {x : Except Fault (Option (Class × Field)) × MethodArea}
    (h : l.plainField name descriptor depth c a = some x) :
    l.plainField name descriptor (depth + 1) c a = some x := by
  induction depth generalizing c a x with
  | zero => cases h
  | succ depth ih =>
    rw [plainField] at h ⊢
    cases hfield : c.file.field? name descriptor with
    | some f => simpa only [hfield] using h
    | none =>
      simp only [hfield] at h ⊢
      refine orElse_mono (fun x => plainInterfaces_mono ih) (fun b x hup => ?_) h
      cases hsuper : c.super? with
      | none => simpa only [hsuper] using hup
      | some p =>
        simp only [hsuper] at hup ⊢
        exact ih hup

theorem plainField_mono {depth depth' : Nat} (hle : depth ≤ depth') {c : Class}
    {o : Except Fault (Option (Class × Field)) × MethodArea}
    (h : l.plainField name descriptor depth c a = some o) :
    l.plainField name descriptor depth' c a = some o := by
  induction hle with
  | refl => exact h
  | step hle ih => exact plainField_succ ih

theorem plainField_unique {depth depth' : Nat} {c : Class}
    {o o' : Except Fault (Option (Class × Field)) × MethodArea}
    (h : l.plainField name descriptor depth c a = some o)
    (h' : l.plainField name descriptor depth' c a = some o') : o' = o := by
  have hdeep := plainField_mono (Nat.le_max_left depth depth') h
  rw [plainField_mono (Nat.le_max_right depth depth') h'] at hdeep
  exact Option.some.inj hdeep

theorem exists_least_depth {depth : Nat} {c : Class}
    {o : Except Fault (Option (Class × Field)) × MethodArea}
    (h : l.plainField name descriptor depth c a = some o) :
    ∃ least < depth, l.plainField name descriptor least c a = none ∧
      l.plainField name descriptor (least + 1) c a = some o := by
  induction depth with
  | zero => cases h
  | succ depth ih =>
    cases hshallow : l.plainField name descriptor depth c a with
    | none => exact ⟨depth, Nat.lt_succ_self depth, hshallow, h⟩
    | some o' =>
      obtain rfl := plainField_unique h hshallow
      obtain ⟨least, hlt, hleast⟩ := ih hshallow
      exact ⟨least, Nat.lt_succ_of_lt hlt, hleast⟩

/-! ### Leaving out what has been visited -/

/-- The plain search at the class of a name comes to nothing. -/
def Barren (l : Loader) (name descriptor v : String) : Prop :=
  ∀ k, l.Linkable v k →
    ∃ depth b, l.plainField name descriptor depth k .empty = some (.ok none, b)

/-- The plain search at the class of a name takes deeper calls. -/
def Deeper (l : Loader) (name descriptor : String) (depth : Nat) (v : String) : Prop :=
  ∀ k, l.Linkable v k → l.plainField name descriptor depth k .empty = none

/-- A plain search to `depth` loses nothing by leaving out names: each is done with in vain, or the
search is still above its class, and would not end if it came to it again. -/
def Spared (l : Loader) (name descriptor : String) (depth : Nat) (visited : List String) : Prop :=
  ∀ v ∈ visited, l.Barren name descriptor v ∨ l.Deeper name descriptor depth v

theorem Deeper.anti {depth least : Nat} {v : String} (h : l.Deeper name descriptor depth v)
    (hle : least ≤ depth) : l.Deeper name descriptor least v := by
  intro k hk
  cases hshallow : l.plainField name descriptor least k .empty with
  | none => rfl
  | some o =>
    rw [← h k hk, plainField_mono hle hshallow]

/-- At a class, the plain search can be started anew, no deeper than it has to be; then the class
itself may be left out below it. -/
theorem Spared.enter {depth : Nat} {c : Class} {visited : List String}
    {r : Except Fault (Option (Class × Field))} (hbounded : l.Bounded)
    (h : l.Spared name descriptor depth visited) (hc : l.Linkable c.name c) (ha : l.Stocks a)
    (hplain : l.plainField name descriptor depth c a = some (r, b)) :
    ∃ least b', l.plainField name descriptor (least + 1) c .empty = some (r, b') ∧
      l.Spared name descriptor least (c.name :: visited) := by
  obtain ⟨b', hanew⟩ := plainField_from_empty hbounded ha hplain
  obtain ⟨least, hlt, hnone, hleast⟩ := exists_least_depth hanew
  refine ⟨least, b', hleast, List.forall_mem_cons.mpr ⟨.inr ?_, fun v hv => ?_⟩⟩
  · intro k hk
    rwa [hc.unique hk]
  · exact (h v hv).imp_right fun hdeeper => hdeeper.anti (Nat.le_of_lt hlt)

theorem map_fst_ne {r : Except Fault (Search (Class × Field))} (h : ∀ w, r ≠ .ok (none, w)) :
    r.map Prod.fst ≠ .ok none := by
  rcases r with f | ⟨_ | found, w⟩
  · nofun
  · exact absurd rfl (h w)
  · nofun

theorem barren_of_plain {depth : Nat} {c : Class} (hc : l.Linkable c.name c)
    (h : l.plainField name descriptor depth c .empty = some (.ok none, b)) :
    l.Barren name descriptor c.name := by
  intro k hk
  rw [hc.unique hk]
  exact ⟨depth, b, h⟩

/-- The names `w` are those visited before and others that were visited in vain. -/
def Vain (l : Loader) (name descriptor : String) (visited w : List String) : Prop :=
  ∀ v ∈ w, v ∈ visited ∨ l.Barren name descriptor v

theorem Vain.spared {depth : Nat} {visited w : List String} (h : l.Vain name descriptor visited w)
    (hspared : l.Spared name descriptor depth visited) : l.Spared name descriptor depth w :=
  fun v hv => (h v hv).elim (hspared v) .inl

theorem Vain.trans {visited w w' : List String} (h : l.Vain name descriptor visited w)
    (h' : l.Vain name descriptor w w') : l.Vain name descriptor visited w' :=
  fun v hv => (h' v hv).elim (h v) .inr

theorem Vain.leave {v : String} {visited w : List String}
    (h : l.Vain name descriptor (v :: visited) w) (hv : l.Barren name descriptor v) :
    l.Vain name descriptor visited w := by
  refine Vain.trans ?_ h
  exact List.forall_mem_cons.mpr ⟨.inr hv, fun u hu => .inl hu⟩

/-- A search that leaves out names which a plain search can spare comes to the same, and what it
visits without finding anything it visits in vain. -/
theorem Searches.eq_plain {site : SearchSite} {visited : List String}
    {r : Except Fault (Search (Class × Field))} (hbounded : l.Bounded)
    (h : l.Searches name descriptor site visited a r b) (ha : l.Stocks a)
    (hsite : l.SiteLinkable site) {depth : Nat} {r₀ : Except Fault (Option (Class × Field))}
    {a₀ b₀ : MethodArea} (ha₀ : l.Stocks a₀)
    (hplain : l.plainSearch name descriptor depth site a₀ = some (r₀, b₀))
    (hspared : l.Spared name descriptor depth visited) :
    r.map Prod.fst = r₀ ∧ ∀ w, r = .ok (none, w) → l.Vain name descriptor visited w := by
  -- By induction on the calls. At each class the plain search is started anew at its least depth, so
  -- that the classes above, which need more, are not among those that it comes to.
  induction h generalizing depth r₀ a₀ b₀ with
  | @visited c visited a hvisited =>
    obtain ⟨b₁, hanew⟩ := plainField_from_empty hbounded ha₀ hplain
    refine ⟨?_, fun w hw v hv => by cases hw; exact .inl hv⟩
    obtain hbarren | hdeeper := hspared c.name hvisited
    · obtain ⟨depth', b', hnone⟩ := hbarren c hsite
      exact congrArg Prod.fst (plainField_unique hanew hnone)
    · -- The plain search has come to `c` within `depth`.
      rw [hdeeper c hsite] at hanew
      cases hanew
  | own hnew hfield =>
    obtain ⟨least, b₁, hleast, -⟩ := hspared.enter hbounded hsite ha₀ hplain
    rw [plainField] at hleast
    simp only [hfield] at hleast
    cases hleast
    exact ⟨rfl, fun w hw => nomatch hw⟩
  | inherited hnew hfield hinterfaces hends ih =>
    obtain ⟨least, b₁, hleast, hspared'⟩ := hspared.enter hbounded hsite ha₀ hplain
    obtain ⟨r₁, b₂, hrun, hcases⟩ := plainField_inv hfield hleast
    obtain ⟨heq, -⟩ := ih ha trivial (Stocks.empty l) hrun hspared'
    obtain ⟨-, rfl⟩ | ⟨hnone, -⟩ := hcases
    · exact ⟨heq, fun w hw => absurd hw (hends w)⟩
    · exact absurd (heq.trans hnone) (map_fst_ne hends)
  | superclass hnew hfield hinterfaces hsuper hparent ih ihparent =>
    obtain ⟨least, b₁, hleast, hspared'⟩ := hspared.enter hbounded hsite ha₀ hplain
    obtain ⟨r₁, b₂, hrun, hcases⟩ := plainField_inv hfield hleast
    obtain ⟨heq, hvain⟩ := ih ha trivial (Stocks.empty l) hrun hspared'
    obtain ⟨hne, -⟩ | ⟨-, hup⟩ := hcases
    · exact absurd heq.symm hne
    · simp only [hsuper] at hup
      have hbetween := hinterfaces.preserves l.preserves_stocks ha
      have hb₂ := plainSearch_stocks hbounded _ (Stocks.empty l) hrun
      obtain ⟨heq', hvain'⟩ := ihparent hbetween (hsite.parent hsuper) hb₂ hup
        ((hvain _ rfl).spared hspared')
      refine ⟨heq', fun w hw => ((hvain _ rfl).trans (hvain' w hw)).leave ?_⟩
      rw [← heq', hw] at hleast
      exact barren_of_plain hsite hleast
  | root hnew hfield hinterfaces hsuper ih =>
    obtain ⟨least, b₁, hleast, hspared'⟩ := hspared.enter hbounded hsite ha₀ hplain
    obtain ⟨r₁, b₂, hrun, hcases⟩ := plainField_inv hfield hleast
    obtain ⟨heq, hvain⟩ := ih ha trivial (Stocks.empty l) hrun hspared'
    obtain ⟨hne, -⟩ | ⟨-, htop⟩ := hcases
    · exact absurd heq.symm hne
    · simp only [hsuper] at htop
      cases htop
      exact ⟨rfl, fun w hw => (hvain w hw).leave (barren_of_plain hsite hleast)⟩
  | exhausted =>
    cases hplain
    exact ⟨rfl, fun w hw v hv => by cases hw; exact .inl hv⟩
  | unloadable hload =>
    obtain ⟨b₁, hload₀, -⟩ := ha.ensure_eq hbounded ha₀ hload
    simp only [plainSearch, plainInterfaces, hload₀] at hplain
    cases hplain
    exact ⟨rfl, fun w hw => nomatch hw⟩
  | ends hload hinterface hends ih =>
    obtain ⟨b₁, hload₀, hb₁⟩ := ha.ensure_eq hbounded ha₀ hload
    simp only [plainSearch, plainInterfaces, hload₀] at hplain
    obtain ⟨r₁, b₂, hrun, hcases⟩ := orElse_eq_some hplain
    have hloaded := (l.preserves_stocks.ensure _).apply ha hload
    obtain ⟨heq, -⟩ := ih hloaded (linkable_of_ensure_name ha.sources hload) hb₁ hrun hspared
    obtain ⟨-, rfl⟩ | ⟨hnone, -⟩ := hcases
    · exact ⟨heq, fun w hw => absurd hw (hends w)⟩
    · exact absurd (heq.trans hnone) (map_fst_ne hends)
  | next hload hinterface hrest ih ihrest =>
    obtain ⟨b₁, hload₀, hb₁⟩ := ha.ensure_eq hbounded ha₀ hload
    simp only [plainSearch, plainInterfaces, hload₀] at hplain
    obtain ⟨r₁, b₂, hrun, hcases⟩ := orElse_eq_some hplain
    have hloaded := (l.preserves_stocks.ensure _).apply ha hload
    obtain ⟨heq, hvain⟩ := ih hloaded (linkable_of_ensure_name ha.sources hload) hb₁ hrun hspared
    obtain ⟨hne, -⟩ | ⟨-, hrest₀⟩ := hcases
    · exact absurd heq.symm hne
    · have hbetween := hinterface.preserves l.preserves_stocks hloaded
      have hb₂ := plainSearch_stocks hbounded (.cls _) hb₁ hrun
      obtain ⟨heq', hvain'⟩ := ihrest hbetween trivial hb₂ hrest₀ ((hvain _ rfl).spared hspared)
      exact ⟨heq', fun w hw => (hvain _ rfl).trans (hvain' w hw)⟩

/-! ### Resolving a field -/

/-- What the search for a field of a class amounts to. -/
def fieldAnswer (c : Class) (name descriptor : String) :
    Except Fault (Option (Class × Field)) → Except Fault (Class × Field)
  | .ok (some found) => .ok found
  | .ok none =>
    .error (.of .resolution .fieldNotFound (c.name ++ "." ++ name ++ ":" ++ descriptor))
  | .error f => .error f

theorem fieldAnswer_eq_ok {c : Class} {r : Except Fault (Search (Class × Field))}
    {found : Class × Field} (h : fieldAnswer c name descriptor (r.map Prod.fst) = .ok found) :
    ∃ w, r = .ok (some found, w) := by
  rcases r with f | ⟨_ | found', w⟩
  · cases h
  · cases h
  · cases h
    exact ⟨w, rfl⟩

/-- To resolve a field is to search for it, and the search ends. -/
theorem resolveField_searches (hbounded : l.Bounded) (ha : l.Sources a) {c : Class}
    (hc : l.Linkable c.name c) (name descriptor : String) :
    ∃ r b, l.Searches name descriptor (.cls c) [] a r b ∧
      l.resolveField c name descriptor a = (fieldAnswer c name descriptor (r.map Prod.fst), b) := by
  have hsearches := searches_of_fuel hbounded name descriptor (l.searchFuel a)
    (l.bound_le_searchFuel a) ha hc (.nil l)
  refine ⟨_, _, hsearches, ?_⟩
  simp only [resolveField, Effect.bind_apply, Effect.read]
  rcases l.searchField name descriptor (l.searchFuel a) c [] a with ⟨f | ⟨_ | found, w⟩, b⟩
  · rfl
  · rfl
  · rfl

end

end Loader

namespace Environment

variable {env : Environment} {a : MethodArea} {c : Class}

/-- The search for a field of a loaded class ends, whatever names the interfaces have for each
other. When the search that remembers nothing ends, both find the same field of the same class, or
nothing, or the same class cannot be loaded. What is found is declared by the class that is
returned, and that class is above the one asked for. -/
theorem resolveField_eq_plain (hbounded : env.loader.Bounded)
    (ha : MethodArea.Evolves env .empty a) (hc : a.class? c.name = some c)
    (name descriptor : String) :
    let resolved := env.loader.resolveField c name descriptor a
    (∃ r b, env.loader.Searches name descriptor (.cls c) [] a r b ∧
      resolved = (Loader.fieldAnswer c name descriptor (r.map Prod.fst), b)) ∧
    (∀ depth r b, env.loader.plainField name descriptor depth c a = some (r, b) →
      resolved.1 = Loader.fieldAnswer c name descriptor r) ∧
    (∀ d f, resolved.1 = .ok (d, f) → d.file.field? name descriptor = some f ∧
      Relation.ReflTransGen resolved.2.Supertype c d) := by
  intro resolved
  have hsources := ha.sources
  have hstocks : env.loader.Stocks a := ⟨ha.linked .empty, hsources⟩
  have hlinkable := hsources c.name c hc
  obtain ⟨r, b, hsearches, hresolved⟩ :=
    Loader.resolveField_searches hbounded hsources hlinkable name descriptor
  have hresolved : resolved = _ := hresolved
  refine ⟨⟨r, b, hsearches, hresolved⟩, ?_, ?_⟩
  · intro depth r₀ b₀ hplain
    have hspared : env.loader.Spared name descriptor depth [] := fun v hv => nomatch hv
    obtain ⟨heq, -⟩ := hsearches.eq_plain hbounded hstocks hlinkable hstocks hplain hspared
    rw [hresolved, heq]
  · intro d f hfound
    rw [hresolved] at hfound ⊢
    obtain ⟨w, hr⟩ := Loader.fieldAnswer_eq_ok hfound
    exact hsearches.declared hr

end Environment

def Loader.ofFiles (files : List ClassFile) : Loader where
  load name :=
    match files.find? fun file => file.name == name with
    | some file => .ok file
    | none => .error (classNotFound name)
  bound := files.length

theorem Loader.ofFiles_bounded (files : List ClassFile) : (Loader.ofFiles files).Bounded := by
  intro names hdistinct hload
  have hnames : names ⊆ files.map ClassFile.name := by
    intro name hname
    obtain ⟨file, hfile⟩ := hload name hname
    simp only [ofFiles] at hfile
    split at hfile
    · rename_i found hfound
      have hmem := List.mem_of_find?_eq_some hfound
      have heq : found.name = name := by simpa using List.find?_some hfound
      exact heq ▸ List.mem_map_of_mem hmem
    · cases hfile
  simpa [ofFiles] using hdistinct.length_le_of_subset hnames

def searchedFile (name superName : String) (interfaceNames : List String) (fields : List Field) :
    ClassFile where
  minor := 0
  major := 52
  pool := ⟨#[none]⟩
  flags := 0x21
  thisClass := 0
  superClass := 0
  interfaces := []
  fields := fields
  methods := []
  attributes := []
  name := name
  superName := superName
  interfaceNames := interfaceNames

def searchedField : Field := ⟨1, 0, 0, [], "x", "I"⟩

def searchedB : ClassFile := searchedFile "B" "" [] [searchedField]

def searchedC : ClassFile := searchedFile "C" "B" ["I", "J"] []

def searchedD : ClassFile := searchedFile "D" "B" ["K", "L"] []

def searchedEnvironment : Environment where
  loader := .ofFiles [searchedB, searchedC, searchedFile "I" "" ["J"] [],
    searchedFile "J" "" ["I"] [], searchedD, searchedFile "K" "" ["M"] [],
    searchedFile "L" "" ["M"] [], searchedFile "M" "" [] []]
  natives := .standard
  maxDepth := 1
  observed := false

/-- The search from `C` comes through a cycle, and the one from `D` to an interface again. -/
theorem resolveField_eq_plain_sample :
    let l := searchedEnvironment.loader
    let c : Class := ⟨searchedC, [searchedB]⟩
    let d : Class := ⟨searchedD, [searchedB]⟩
    let found : Class × Field := (⟨searchedB, []⟩, searchedField)
    l.Bounded ∧
    (∃ a, MethodArea.Evolves searchedEnvironment .empty a ∧ a.class? "C" = some c ∧
      ∃ b w, l.Searches "x" "I" (.cls c) [] a (.ok (some found, w)) b) ∧
    ∃ a b, MethodArea.Evolves searchedEnvironment .empty a ∧ a.class? "D" = some d ∧
      l.plainField "x" "I" 3 d a = some (.ok (some found), b) ∧
      (l.resolveField d "x" "I" a).1 = .ok found := by
  intro l c d found
  have hbounded : l.Bounded := Loader.ofFiles_bounded _
  have hC : MethodArea.Evolves searchedEnvironment .empty (l.ensure "C" .empty).2 :=
    .single (.load "C")
  have hD : MethodArea.Evolves searchedEnvironment .empty (l.ensure "D" .empty).2 :=
    .single (.load "D")
  refine ⟨hbounded, ⟨_, hC, rfl, ?_⟩, ⟨_, _, hD, rfl, rfl, ?_⟩⟩
  · have hresolved := Environment.resolveField_eq_plain (c := c) hbounded hC rfl "x" "I"
    obtain ⟨r, b, hsearches, heq⟩ := hresolved.1
    have hfound : (l.resolveField c "x" "I" (l.ensure "C" .empty).2).1 = .ok found := rfl
    rw [heq] at hfound
    obtain ⟨w, rfl⟩ := Loader.fieldAnswer_eq_ok hfound
    exact ⟨b, w, hsearches⟩
  · have hresolved := Environment.resolveField_eq_plain (c := d) hbounded hD rfl "x" "I"
    exact hresolved.2.1 3 _ _ rfl

end Jvm
