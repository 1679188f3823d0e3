import Jvm.Proofs.Machine.PlainSearch
import Jvm.Proofs.Machine.Residence

/-!
# Assignability

A class may be used as any type that is reached from it through superclasses and interfaces. The
search for such a type goes up the superclasses in a loop and into the interfaces by recursion, and
both leave out the names that either has visited. A name is marked before anything above it has been
searched; so while the search goes on, what is marked may lead to what is not. Once a search is over
and has found nothing, this no longer happens: all that the names it has added lead to is visited,
too.
-/

namespace Jvm

namespace Loader

/-! ### What is above a class -/

/-- `d` is the direct superclass of `c`, or what the loader has under the name of an interface of
`c`, loaded or not. -/
def Supertype (l : Loader) (c d : Class) : Prop :=
  c.super? = some d ∨ ∃ n ∈ c.file.interfaceNames, l.Linkable n d

/-- Something named `target` is the class or above it. -/
def Reaches (l : Loader) (c : Class) (target : String) : Prop :=
  ∃ d, Relation.ReflTransGen l.Supertype c d ∧ d.name = target

/-- The loader has the class, and all that is named as an interface above it can be loaded. -/
structure Complete (l : Loader) (c : Class) : Prop where
  linkable : l.Linkable c.name c
  interfaces : ∀ d, Relation.ReflTransGen l.Supertype c d → ∀ n ∈ d.file.interfaceNames,
    ∃ i, (l.ensure n .empty).1 = .ok i

section

variable {l : Loader} {target : String} {c d : Class} {n : Nat} {visited w w' : List String}
  {a b : MethodArea}

theorem Reaches.self (h : c.name = target) : l.Reaches c target := ⟨c, .refl, h⟩

theorem Reaches.above (hup : l.Supertype c d) (h : l.Reaches d target) : l.Reaches c target := by
  obtain ⟨k, hpath, hname⟩ := h
  exact ⟨k, .head hup hpath, hname⟩

theorem Supertype.linkable (h : l.Supertype c d) (hc : l.Linkable c.name c) :
    l.Linkable d.name d := by
  obtain hsuper | ⟨n, -, hd⟩ := h
  · exact hc.parent hsuper
  · rwa [hd.name_eq]

theorem Complete.above (h : l.Complete c) (hup : l.Supertype c d) : l.Complete d where
  linkable := hup.linkable h.linkable
  interfaces k hpath := h.interfaces k (.head hup hpath)

theorem Complete.ensure (hbounded : l.Bounded) (h : l.Complete c) {m : String}
    (hm : m ∈ c.file.interfaceNames) (ha : l.Stocks a) :
    ∃ i b, l.ensure m a = (.ok i, b) ∧ l.Stocks b ∧ l.Linkable m i := by
  obtain ⟨i, hfirst⟩ := h.interfaces c .refl m hm
  have hload : l.ensure m a = (.ok i, (l.ensure m a).2) :=
    Prod.ext ((ensure_answer hbounded ha.linked ha.sources m).trans hfirst) rfl
  exact ⟨i, _, hload, l.preserves_stocks a m ha, linkable_of_ensure ha.sources hload⟩

/-! ### What a search leaves behind -/

/-- Every name that was added to the visited ones is not the target, and all that is directly above
its class is visited, too. -/
structure Swept (l : Loader) (target : String) (visited w : List String) : Prop where
  kept : visited ⊆ w
  closed : ∀ v ∈ w, v ∈ visited ∨
    ∀ k, l.Linkable v k → k.name ≠ target ∧ ∀ d, l.Supertype k d → d.name ∈ w

theorem Swept.refl (visited : List String) : l.Swept target visited visited :=
  ⟨List.Subset.refl visited, fun _ hv => .inl hv⟩

theorem Swept.trans (h : l.Swept target visited w) (h' : l.Swept target w w') :
    l.Swept target visited w' where
  kept := List.Subset.trans h.kept h'.kept
  closed v hv := by
    obtain hw | hclosed := h'.closed v hv
    · refine (h.closed v hw).imp_right fun hclosed k hk => ?_
      obtain ⟨hne, hup⟩ := hclosed k hk
      exact ⟨hne, fun d hd => h'.kept (hup d hd)⟩
    · exact .inr hclosed

/-- A class that was marked can be let go of when all that is above it has been visited. -/
theorem Swept.leave (h : l.Swept target (c.name :: visited) w) (hc : l.Linkable c.name c)
    (hne : c.name ≠ target) (hup : ∀ d, l.Supertype c d → d.name ∈ w) :
    l.Swept target visited w where
  kept := fun v hv => h.kept (List.mem_cons_of_mem _ hv)
  closed v hv := by
    obtain hmem | hclosed := h.closed v hv
    · obtain rfl | hmem := List.mem_cons.mp hmem
      · refine .inr fun k hk => ?_
        rw [hc.unique hk]
        exact ⟨hne, hup⟩
      · exact .inl hmem
    · exact .inr hclosed

/-- What has been swept from nothing is closed, so the target is not above any class of it. -/
theorem Swept.not_reaches (h : l.Swept target [] w) (hc : l.Linkable c.name c)
    (hmem : c.name ∈ w) : ¬ l.Reaches c target := by
  rintro ⟨d, hpath, hname⟩
  have hclosed : ∀ {k : Class}, l.Linkable k.name k → k.name ∈ w →
      k.name ≠ target ∧ ∀ d, l.Supertype k d → d.name ∈ w := fun hk hkw =>
    ((h.closed _ hkw).resolve_left List.not_mem_nil) _ hk
  have hd : l.Linkable d.name d ∧ d.name ∈ w := by
    clear hname
    induction hpath with
    | refl => exact ⟨hc, hmem⟩
    | tail hpath hstep ih => exact ⟨hstep.linkable ih.1, (hclosed ih.1 ih.2).2 _ hstep⟩
  exact (hclosed hd.1 hd.2).1 hname

/-- What a search that starts at certain classes comes to: the target is one of them or above one,
or all of them are visited and what was added is swept. -/
inductive Explored (l : Loader) (target : String) (start : Class → Prop) (visited : List String) :
    Search Unit → Prop where
  | found {k : Class} {w : List String} (hstart : start k) (hreaches : l.Reaches k target) :
    Explored l target start visited (some (), w)
  | swept {w : List String} (hswept : l.Swept target visited w)
    (hstart : ∀ k, start k → k.name ∈ w) : Explored l target start visited (none, w)

theorem Explored.andThen {start next both : Class → Prop} {r : Search Unit}
    (h : l.Explored target start visited (none, w)) (hnext : l.Explored target next w r)
    (hboth : ∀ k, both k ↔ start k ∨ next k) : l.Explored target both visited r := by
  cases h with
  | swept hswept hstart =>
    cases hnext with
    | found hk hreaches => exact .found ((hboth _).mpr (.inr hk)) hreaches
    | swept hswept' hnext =>
      refine .swept (hswept.trans hswept') fun k hk => ?_
      obtain hk | hk := (hboth k).mp hk
      · exact hswept'.kept (hstart k hk)
      · exact hnext k hk

theorem Explored.widen {start both : Class → Prop} {u : Unit}
    (h : l.Explored target start visited (some u, w)) (hboth : ∀ k, start k → both k) :
    l.Explored target both visited (some u, w) := by
  cases h with
  | found hk hreaches => exact .found (hboth _ hk) hreaches

/-- When all that is directly above a class that was marked is explored, so is the class. -/
theorem Explored.leave {r : Search Unit}
    (h : l.Explored target (l.Supertype c) (c.name :: visited) r) (hc : l.Linkable c.name c)
    (hne : c.name ≠ target) : l.Explored target (· = c) visited r := by
  cases h with
  | found hup hreaches => exact .found rfl (.above hup hreaches)
  | swept hswept hup =>
    refine .swept (hswept.leave hc hne hup) ?_
    rintro k rfl
    exact hswept.kept List.mem_cons_self

/-- Of a class that was marked before, nothing is claimed but that it is visited: whoever marked it
may still be at work on its interfaces. So it is enough to explore its superclass. -/
theorem Explored.skip {r : Search Unit}
    (h : l.Explored target (fun p => c.super? = some p) visited r) (hvisited : c.name ∈ visited) :
    l.Explored target (· = c) visited r := by
  cases h with
  | found hsuper hreaches => exact .found rfl (.above (.inl hsuper) hreaches)
  | swept hswept hstart =>
    refine .swept hswept ?_
    rintro k rfl
    exact hswept.kept hvisited

/-- The search ends without a failure, and has explored what is above the classes it starts at. -/
def Explores (l : Loader) (target : String) (start : Class → Prop) (n : Nat)
    (visited : List String) (m : Effect MethodArea (Search Unit)) : Prop :=
  ∀ a, l.Stocks a → ∃ r b, m a = (.ok r, b) ∧ l.Stocks b ∧ l.Trail n r.2 ∧
    l.Explored target start visited r

/-! ### The search -/

theorem explores_interfaces (hbounded : l.Bounded) (hc : l.Complete c)
    {search : Class → List String → Effect MethodArea (Search Unit)}
    (hsearch : ∀ {i : Class} {visited : List String}, l.Complete i → l.Trail n visited →
      l.Explores target (· = i) n visited (search i visited))
    {names : List String} (hnames : names ⊆ c.file.interfaceNames) (htrail : l.Trail n visited) :
    l.Explores target (fun i => ∃ m ∈ names, l.Linkable m i) n visited
      (l.searchInterfaces search names visited) := by
  induction names generalizing visited with
  | nil =>
    intro a ha
    exact ⟨_, _, rfl, ha, htrail, .swept (.refl visited) fun k ⟨m, hm, _⟩ => nomatch hm⟩
  | cons m rest ih =>
    intro a ha
    obtain ⟨hm, hrest⟩ := List.cons_subset.mp hnames
    obtain ⟨i, b, hload, hb, hi⟩ := hc.ensure hbounded hm ha
    obtain ⟨⟨_ | u, w⟩, b', hrun, hb', htrail', hexplored⟩ :=
      hsearch (hc.above (.inr ⟨m, hm, hi⟩)) htrail b hb
    · obtain ⟨r, b'', hrun', hb'', htrail'', hexplored'⟩ := ih hrest htrail' b' hb'
      simp only [searchInterfaces, Effect.bind_apply, hload, hrun]
      refine ⟨r, b'', hrun', hb'', htrail'', hexplored.andThen hexplored' fun k => ?_⟩
      rw [List.exists_mem_cons_iff]
      exact or_congr_left ⟨fun hk => hi.unique hk, fun hk => hk ▸ hi⟩
    · simp only [searchInterfaces, Effect.bind_apply, hload, hrun]
      refine ⟨_, _, rfl, hb', htrail', hexplored.widen ?_⟩
      rintro k rfl
      exact ⟨m, List.mem_cons_self, hi⟩

/-- One turn of the loop over the superclasses, where `rest` are those above the class. -/
theorem explores_turn (hbounded : l.Bounded) (hc : l.Complete c)
    {search : Class → List String → Effect MethodArea (Search Unit)}
    (hsearch : ∀ {i : Class} {visited : List String}, l.Complete i → l.Trail (n + 1) visited →
      l.Explores target (· = i) (n + 1) visited (search i visited))
    {rest : List Class}
    (hrest : ∀ {visited : List String}, l.Trail n visited →
      l.Explores target (fun p => c.super? = some p) n visited
        (l.searchLineage target search rest visited))
    (htrail : l.Trail n visited) :
    l.Explores target (· = c) n visited (l.searchLineage target search (c :: rest) visited) := by
  intro a ha
  by_cases hname : c.name = target
  · simp only [searchLineage, if_pos hname]
    exact ⟨_, _, rfl, ha, htrail, .found rfl (.self hname)⟩
  · by_cases hvisited : c.name ∈ visited
    · simp only [searchLineage, if_neg hname, if_pos (List.contains_iff_mem.mpr hvisited)]
      obtain ⟨r, b, hrun, hb, htrail', hexplored⟩ := hrest htrail a ha
      exact ⟨r, b, hrun, hb, htrail', hexplored.skip hvisited⟩
    · have hcontains : ¬ visited.contains c.name := fun h =>
        hvisited (List.contains_iff_mem.mp h)
      obtain ⟨⟨_ | u, w⟩, b, hrun, hb, htrail', hexplored⟩ :=
        explores_interfaces hbounded hc hsearch (List.Subset.refl _)
          (htrail.cons hvisited hc.linkable) a ha
      · obtain ⟨r, b', hrun', hb', htrail'', hexplored'⟩ := hrest htrail'.pred b hb
        simp only [searchLineage, if_neg hname, if_neg hcontains, Effect.bind_apply, hrun]
        have habove : l.Explored target (l.Supertype c) (c.name :: visited) r :=
          hexplored.andThen hexplored' fun d => or_comm
        exact ⟨r, b', hrun', hb', htrail'', habove.leave hc.linkable hname⟩
      · simp only [searchLineage, if_neg hname, if_neg hcontains, Effect.bind_apply, hrun]
        have habove : l.Explored target (l.Supertype c) (c.name :: visited) (some u, w) :=
          hexplored.widen fun d => .inr
        exact ⟨_, _, rfl, hb, htrail'.pred, habove.leave hc.linkable hname⟩

theorem explores_lineage (hbounded : l.Bounded)
    {search : Class → List String → Effect MethodArea (Search Unit)}
    (hsearch : ∀ {i : Class} {visited : List String}, l.Complete i → l.Trail (n + 1) visited →
      l.Explores target (· = i) (n + 1) visited (search i visited))
    (hc : l.Complete c) (htrail : l.Trail n visited) :
    l.Explores target (· = c) n visited (l.searchLineage target search c.lineage visited) := by
  obtain ⟨file, ancestors⟩ := c
  induction ancestors generalizing file visited with
  | nil =>
    refine explores_turn hbounded hc hsearch (fun {visited} htrail a ha => ?_) htrail
    exact ⟨_, _, rfl, ha, htrail, .swept (.refl visited) fun p hsuper => nomatch hsuper⟩
  | cons parent rest ih =>
    refine explores_turn hbounded hc hsearch (fun {visited} htrail => ?_) htrail
    have hparent := ih htrail parent (hc.above (.inl rfl))
    have hstart : (fun p => Class.super? ⟨file, parent :: rest⟩ = some p) = (· = ⟨parent, rest⟩) :=
      funext fun p => propext (Option.some_inj.trans eq_comm)
    rwa [hstart]

/-- With fuel for every name that can still be visited, the search ends and explores all that is
above the class. -/
theorem explores_supertype (hbounded : l.Bounded) (target : String) (fuel : Nat)
    (hfuel : l.bound + 2 ≤ n + fuel) (hc : l.Complete c) (htrail : l.Trail n visited) :
    l.Explores target (· = c) n visited (l.searchSupertype target fuel c visited) := by
  induction fuel generalizing n c visited with
  | zero =>
    -- There are not that many names to visit.
    have hlength := hbounded.classFile_length htrail.distinct htrail.files
    have hleast := htrail.length
    omega
  | succ fuel ih =>
    have hroom : l.bound + 2 ≤ n + 1 + fuel := by omega
    exact explores_lineage hbounded (fun hi htrail => ih hroom hi htrail) hc htrail

theorem isAssignable_reaches (hbounded : l.Bounded) (ha : l.Stocks a) (hc : l.Complete c)
    (target : String) :
    ∃ found, (l.isAssignable c target a).1 = .ok found ∧ (found = true ↔ l.Reaches c target) := by
  obtain ⟨r, b, hrun, -, -, hexplored⟩ :=
    explores_supertype hbounded target _ (l.bound_le_searchFuel a) hc (.nil l) a ha
  refine ⟨r.1.isSome, ?_, ?_⟩
  · simp only [isAssignable, Effect.bind_apply, Effect.read, hrun]
    rfl
  · cases hexplored with
    | found hstart hreaches =>
      obtain rfl := hstart
      exact iff_of_true rfl hreaches
    | swept hswept hstart =>
      exact iff_of_false Bool.false_ne_true (hswept.not_reaches hc.linkable (hstart c rfl))

end

end Loader

/-! ### Casts -/

namespace Exec

variable {env : Environment} {s : Scene} {r : Reference} {k : Instance}

theorem className_of_instance? {h : Heap} (hr : h.instance? r = some k) :
    h.className r = k.cls.name := by
  cases r with
  | object n =>
    have hget : h.instances[n]? = some k := hr
    simp only [Heap.className, hget, Option.map_some, Option.getD_some]
  | _ => cases hr

theorem isInstance_instance (hr : s.world.heap.instance? r = some k) (target : String) :
    isInstance env r target s =
      if target = objectName ∨ target = k.cls.name then (.ok true, s)
      else Scene.onArea (env.loader.isAssignable k.cls target) s := by
  have hname := className_of_instance? hr
  cases r with
  | object n =>
    simp only [isInstance, Effect.bind_apply, heap, hname, hr]
    split <;> rfl
  | _ => cases hr

/-- A cast of an instance passes or fails as the question for its class is answered, and leaves the
reference where it is. -/
theorem checkCast_instance {index : UInt16} {target : String} {rest : List Value}
    (hpool : s.frame.pool.className index = .ok target)
    (hstack : s.frame.stack = .reference r :: rest)
    (hr : s.world.heap.instance? r = some k) {passed : Bool} {t : Scene}
    (h : isInstance env r target s = (.ok passed, t)) (hheap : t.world.heap = s.world.heap) :
    checkCast env index s =
      (if passed then .ok .next
        else .error (typeMismatch (k.cls.name ++ " cannot be cast to " ++ target)), t) := by
  have hpeek : Scene.onFrame Frame.peek s = (.ok (.reference r), s) := by
    simp only [Scene.onFrame, Effect.zoom, Frame.peek, hstack]
  have hexpect : (Value.reference r).expect (some .reference) = .ok (.reference r) := rfl
  have hname : t.world.heap.className r = k.cls.name := by
    rw [hheap, className_of_instance? hr]
  simp only [checkCast, Effect.bind_apply, pool, hpool, Effect.ofExcept, hpeek, hexpect, h]
  cases passed with
  | true => rfl
  | false => simp only [Bool.false_eq_true, if_false, Effect.bind_apply, heap, hname, Effect.fail]

end Exec

namespace Environment

variable {env : Environment} {a : MethodArea} {c : Class}

/-- A cast of an instance passes as what is reached from its class and as the root class, and as
nothing else. -/
theorem execute_checkcast (hbounded : env.loader.Bounded) {s : Scene}
    (harea : env.loader.Stocks s.world.area) (hc : env.loader.Complete c) {i : Instruction}
    {r : Reference} {k : Instance} {rest : List Value} {target : String}
    (hop : i.opcode = .checkcast) (hpool : s.frame.pool.className i.index = .ok target)
    (hstack : s.frame.stack = .reference r :: rest) (hr : s.world.heap.instance? r = some k)
    (hk : k.cls = c) (depth : Nat) :
    ∃ passed t, env.execute depth i s =
        (if passed then .ok .next
          else .error (typeMismatch (c.name ++ " cannot be cast to " ++ target)), t) ∧
      (passed = true ↔ target = objectName ∨ env.loader.Reaches c target) ∧
      t.frame = s.frame := by
  subst hk
  have hexecute : env.execute depth i s = Exec.checkCast env i.index s := by
    rw [execute, hop]
  rw [hexecute]
  have hinstance : Exec.isInstance env r target s = _ := Exec.isInstance_instance hr target
  by_cases hown : target = objectName ∨ target = k.cls.name
  · rw [if_pos hown] at hinstance
    refine ⟨true, s, Exec.checkCast_instance hpool hstack hr hinstance rfl, ?_, rfl⟩
    exact iff_of_true rfl (hown.imp_right fun hname => .self hname.symm)
  · obtain ⟨found, hfound, hreached⟩ :=
      Loader.isAssignable_reaches hbounded harea hc target
    rw [if_neg hown] at hinstance
    have hpassed : Exec.isInstance env r target s = (.ok found,
        (Scene.onArea (env.loader.isAssignable k.cls target) s).2) := by
      rw [hinstance]
      exact Prod.ext hfound rfl
    refine ⟨found, _, Exec.checkCast_instance hpool hstack hr hpassed rfl, ?_, rfl⟩
    rw [hreached, or_iff_right (fun hobject => hown (.inl hobject))]

/-- When the interfaces that are named above a loaded class can all be loaded, the search for a type
above it ends, whatever names the interfaces have for each other, and finds exactly what is reached
through superclasses and interfaces. So a cast lets an instance of the class pass as any of these
and as the root class, which is above everything, and as nothing else. -/
theorem assignable_iff_reached (hbounded : env.loader.Bounded)
    (ha : MethodArea.Evolves env .empty a) (hc : a.class? c.name = some c)
    (hload : ∀ d, Relation.ReflTransGen env.loader.Supertype c d →
      ∀ n ∈ d.file.interfaceNames, ∃ i, (env.loader.ensure n a).1 = .ok i)
    (target : String) :
    (∃ found, (env.loader.isAssignable c target a).1 = .ok found ∧
      (found = true ↔
        ∃ d, Relation.ReflTransGen env.loader.Supertype c d ∧ d.name = target)) ∧
    ∀ {s : Scene} {i : Instruction} {r : Reference} {k : Instance} {rest : List Value},
      s.world.area = a → i.opcode = .checkcast →
      s.frame.pool.className i.index = .ok target → s.frame.stack = .reference r :: rest →
      s.world.heap.instance? r = some k → k.cls = c →
      ∀ depth, ∃ passed t, env.execute depth i s =
          (if passed then .ok .next
            else .error (typeMismatch (c.name ++ " cannot be cast to " ++ target)), t) ∧
        (passed = true ↔ target = objectName ∨
          ∃ d, Relation.ReflTransGen env.loader.Supertype c d ∧ d.name = target) ∧
        t.frame = s.frame := by
  have hstocks : env.loader.Stocks a := ⟨ha.linked .empty, ha.sources⟩
  have hcomplete : env.loader.Complete c := by
    refine ⟨ha.sources c.name c hc, fun d hpath n hn => ?_⟩
    obtain ⟨i, hi⟩ := hload d hpath n hn
    exact ⟨i, (Loader.ensure_answer hbounded hstocks.linked hstocks.sources n).symm.trans hi⟩
  refine ⟨Loader.isAssignable_reaches hbounded hstocks hcomplete target, ?_⟩
  intro s i r k rest harea hop hpool hstack hr hk depth
  exact execute_checkcast hbounded (harea ▸ hstocks) hcomplete hop hpool hstack hr hk depth

end Environment

/-! ### Interfaces in a cycle -/

/-- A frame whose class has a pool with the name `J` in it, with an instance on its stack. -/
def castFrame : Frame where
  cls := ⟨{ searchedC with pool := ⟨#[none, some (.utf8 "J" none), some (.classRef 1)]⟩ }, []⟩
  method := ⟨9, 0, 0, [], "run", "()V"⟩
  code := .make 1 0 [0xC0, 0, 2, 0xB1] [] []
  resumePc := 0
  slots := #[]
  stack := [.reference (.object 0)]
  serial := 0
  observed := false

theorem searched_above {d : Class}
    (h : Relation.ReflTransGen searchedEnvironment.loader.Supertype ⟨searchedC, [searchedB]⟩ d) :
    d ∈ [⟨searchedC, [searchedB]⟩, ⟨searchedB, []⟩, ⟨searchedFile "I" "" ["J"] [], []⟩,
      (⟨searchedFile "J" "" ["I"] [], []⟩ : Class)] := by
  have hI : ∀ {k}, searchedEnvironment.loader.Linkable "I" k →
      k = ⟨searchedFile "I" "" ["J"] [], []⟩ := Loader.Linkable.unique (.root rfl rfl rfl)
  have hJ : ∀ {k}, searchedEnvironment.loader.Linkable "J" k →
      k = ⟨searchedFile "J" "" ["I"] [], []⟩ := Loader.Linkable.unique (.root rfl rfl rfl)
  simp only [List.mem_cons, List.not_mem_nil, or_false]
  induction h with
  | refl => exact .inl rfl
  | tail hpath hstep ih =>
    obtain rfl | rfl | rfl | rfl := ih
    · obtain hsuper | ⟨n, hn, hk⟩ := hstep
      · cases hsuper
        exact .inr (.inl rfl)
      · obtain rfl | hn := List.mem_cons.mp hn
        · exact .inr (.inr (.inl (hI hk)))
        · obtain rfl := List.mem_singleton.mp hn
          exact .inr (.inr (.inr (hJ hk)))
    · obtain hsuper | ⟨n, hn, hk⟩ := hstep
      · cases hsuper
      · cases hn
    · obtain hsuper | ⟨n, hn, hk⟩ := hstep
      · cases hsuper
      · obtain rfl := List.mem_singleton.mp hn
        exact .inr (.inr (.inr (hJ hk)))
    · obtain hsuper | ⟨n, hn, hk⟩ := hstep
      · cases hsuper
      · obtain rfl := List.mem_singleton.mp hn
        exact .inr (.inr (.inl (hI hk)))

/-- From `C` the search comes through the cycle to `J`; it ends without having come to `K`. -/
theorem assignable_iff_reached_cycle :
    let l := searchedEnvironment.loader
    let c : Class := ⟨searchedC, [searchedB]⟩
    l.Bounded ∧ ∃ a, MethodArea.Evolves searchedEnvironment .empty a ∧ a.class? "C" = some c ∧
      (l.isAssignable c "J" a).1 = .ok true ∧ l.Reaches c "J" ∧
      (l.isAssignable c "K" a).1 = .ok false ∧ ¬ l.Reaches c "K" ∧
      ∃ t, searchedEnvironment.execute 1 ⟨0, .checkcast, .pool 2⟩
        ⟨castFrame, { World.empty with area := a, heap := (Heap.empty.newInstance c).2 }⟩ =
          (.ok .next, t) ∧ t.frame = castFrame := by
  intro l c
  have hbounded : l.Bounded := Loader.ofFiles_bounded _
  have hC : MethodArea.Evolves searchedEnvironment .empty (l.ensure "C" .empty).2 :=
    .single (.load "C")
  have hload : ∀ d, Relation.ReflTransGen l.Supertype c d → ∀ n ∈ d.file.interfaceNames,
      ∃ i, (l.ensure n (l.ensure "C" .empty).2).1 = .ok i := by
    have hloads : ∀ n ∈ ["I", "J"], ∃ i, (l.ensure n (l.ensure "C" .empty).2).1 = .ok i :=
      List.forall_mem_cons.mpr ⟨⟨_, rfl⟩, List.forall_mem_singleton.mpr ⟨_, rfl⟩⟩
    have hnames : ∀ d ∈ [c, ⟨searchedB, []⟩, ⟨searchedFile "I" "" ["J"] [], []⟩,
        (⟨searchedFile "J" "" ["I"] [], []⟩ : Class)], d.file.interfaceNames ⊆ ["I", "J"] := by
      decide
    exact fun d hpath n hn => hloads n (hnames d (searched_above hpath) hn)
  obtain ⟨⟨yes, hyes, hJ⟩, hcast⟩ :=
    Environment.assignable_iff_reached (c := c) hbounded hC rfl hload "J"
  obtain ⟨⟨no, hno, hK⟩, -⟩ :=
    Environment.assignable_iff_reached (c := c) hbounded hC rfl hload "K"
  have hfound : (l.isAssignable c "J" (l.ensure "C" .empty).2).1 = .ok true := rfl
  have hmissed : (l.isAssignable c "K" (l.ensure "C" .empty).2).1 = .ok false := rfl
  obtain rfl : true = yes := Except.ok.inj (hfound.symm.trans hyes)
  obtain rfl : false = no := Except.ok.inj (hmissed.symm.trans hno)
  have hreached := hJ.mp rfl
  refine ⟨hbounded, _, hC, rfl, hfound, hreached, hmissed,
    fun h => Bool.false_ne_true (hK.mpr h), ?_⟩
  let s : Scene := ⟨castFrame, { World.empty with
    area := (l.ensure "C" .empty).2, heap := (Heap.empty.newInstance c).2 }⟩
  obtain ⟨passed, t, hrun, hpassed, hframe⟩ :=
    hcast (s := s) (i := ⟨0, .checkcast, .pool 2⟩) rfl rfl rfl rfl rfl rfl 1
  rw [hpassed.mpr (.inr hreached)] at hrun
  exact ⟨t, hrun, hframe⟩

end Jvm
