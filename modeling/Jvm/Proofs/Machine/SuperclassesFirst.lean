import Jvm.Proofs.Machine.Triggers

/-!
# Superclasses first

The ledger of a runtime says of every initialiser that has been called whether it has returned, is
still at work in a frame, or has failed. With it, superclasses come first: when the initialiser of a
class is called, those of its superclasses have returned or are at work, except for those that
failed in an earlier run.
-/

namespace Jvm

open MethodArea (Evolves)

/-! ### The ledger -/

/-- What has become of an initialiser that was called: it is at work on top of `level` frames, or it
has returned, or it has failed, also if it could not be entered at all. -/
inductive Fate where
  | working (level : Nat)
  | returned
  | failed
  deriving Repr, DecidableEq

def Fate.of {α : Type} : Except Fault α → Fate
  | .ok _ => .returned
  | .error _ => .failed

/-- The fate of an initialiser when `depth` frames are left and what was above them has met
`outcome`. -/
def Fate.ended (fate outcome : Fate) (depth : Nat) : Fate :=
  match fate with
  | working level => if depth ≤ level then outcome else working level
  | fate => fate

/-- The classes whose initialisers have been called, latest first, with the fates of these. -/
abbrev Ledger := List (String × Fate)

namespace Ledger

/-- The ledger when `depth` frames are left and what was above them has met `outcome`. -/
def ended (outcome : Fate) (depth : Nat) (L : Ledger) : Ledger :=
  L.map fun entry => (entry.1, entry.2.ended outcome depth)

def failures (L : Ledger) : List String :=
  L.filterMap fun entry => if entry.2 = .failed then some entry.1 else none

variable {L : Ledger} {outcome : Fate} {depth : Nat} {name : String}

@[simp] theorem names_ended (outcome : Fate) (depth : Nat) (L : Ledger) :
    (L.ended outcome depth).map Prod.fst = L.map Prod.fst := by
  simp [ended]

theorem mem_failures : name ∈ L.failures ↔ (name, Fate.failed) ∈ L := by
  simp only [failures, List.mem_filterMap, Option.ite_none_right_eq_some, Option.some.injEq]
  constructor
  · rintro ⟨⟨n, fate⟩, hmem, rfl, rfl⟩
    exact hmem
  · exact fun h => ⟨_, h, rfl, rfl⟩

theorem failures_returned (depth : Nat) (L : Ledger) :
    (L.ended .returned depth).failures = L.failures := by
  rw [failures, ended, List.filterMap_map, failures]
  congr 1
  funext ⟨n, fate⟩
  cases fate with
  | working level =>
    simp only [Function.comp_apply, Fate.ended]
    split <;> rfl
  | _ => rfl

/-- Whoever is still at work when frames have gone was at work before, on frames that are left. -/
theorem working_of_ended {level : Nat} (houtcome : ∀ n, outcome ≠ .working n)
    (h : (name, .working level) ∈ L.ended outcome depth) :
    level < depth ∧ (name, .working level) ∈ L := by
  obtain ⟨⟨n, fate⟩, hmem, heq⟩ := List.mem_map.mp h
  obtain ⟨rfl, hfate⟩ := Prod.mk.inj heq
  cases fate with
  | working l =>
    simp only [Fate.ended] at hfate
    split at hfate
    · exact absurd hfate (houtcome level)
    · cases hfate
      exact ⟨by omega, hmem⟩
  | returned | failed => cases hfate

end Ledger

/-! ### The initialisers that are asked for -/

/-- An initialiser that is called: the call, the frames on which it is made, the classes right after
that, and what has become of the initialisers that were called before. -/
structure Ask where
  call : Invocation
  frames : List Frame
  area : MethodArea
  ledger : Ledger

/-- The initialisers that are called, in order, and the ledger afterwards. -/
structure Annals where
  asks : List Ask
  ledger : Ledger

namespace Annals

def idle (L : Ledger) : Annals := ⟨[], L⟩

def andThen (A : Annals) (next : Ledger → Annals) : Annals :=
  ⟨A.asks ++ (next A.ledger).asks, (next A.ledger).ledger⟩

def asking (call? : Option Invocation) (t : Thread) (area : MethodArea) (L : Ledger) : Annals :=
  match call? with
  | none => idle L
  | some call =>
    ⟨[⟨call, t.frames, area, L⟩], (call.target.className, .working t.depth) :: L⟩

end Annals

namespace Thread

def loopAnnals (env : Environment) (base : Nat) : Nat → Thread → Nat → Ledger → Annals
  | 0, _, _, L => .idle L
  | fuel + 1, t, pc, L =>
    let next := step env base t pc
    (Annals.asking (request? env t pc) t next.thread.world.area L).andThen fun L =>
      match next with
      | .running u pc' => loopAnnals env base fuel u pc' (L.ended .returned u.depth)
      | .finished result u => .idle (L.ended (.of result) u.depth)

/-- The annals of a call. When it is over, nothing above its caller is at work any more. -/
def callAnnals (env : Environment) (fuel : Nat) (i : Invocation) (t : Thread) (L : Ledger) :
    Annals :=
  match i.callee with
  | .native run _ => .idle (L.ended (.of (callNative run i t).1) t.depth)
  | .body cls method =>
    match t.push env cls method i with
    | .error _ => .idle (L.ended .failed t.depth)
    | .ok entered => loopAnnals env t.depth fuel entered 0 L

/-- The annals of at most `n` initialisers that a class still needs. -/
def initializeAnnals (env : Environment) (fuel : Nat) (c : Class) :
    Nat → Thread → Ledger → Annals
  | 0, _, L => .idle L
  | n + 1, t, L =>
    match World.onArea (env.initStep c) t.world with
    | (.ok (some i), world) =>
      ((Annals.asking (some i) t world.area L).andThen
          (callAnnals env fuel i { t with world })).andThen fun L =>
        match execute env fuel i { t with world } with
        | some (.ok _, u) => initializeAnnals env fuel c n u L
        | _ => .idle L
    | _ => .idle L

def runAnnals (env : Environment) (fuel : Nat) (r : MemberRef) (arguments : List Value)
    (t : Thread) (L : Ledger) : Annals :=
  match World.onArea (env.loader.ensure r.className) t.world with
  | (.error _, _) => .idle L
  | (.ok c, world) =>
    (initializeAnnals env fuel c (c.lineage.length + 1) { t with world } L).andThen fun L =>
      match initializeClass env fuel c { t with world } with
      | some (.ok (), u) =>
        match entryCall env c r arguments with
        | .error _ => .idle L
        | .ok i => callAnnals env fuel i u L
      | _ => .idle L

end Thread

/-- The initialiser of `j` has returned, or one of the frames is at work on it. -/
def Ask.Serves (env : Environment) (ask : Ask) (j : Class) : Prop :=
  (j.name, .returned) ∈ ask.ledger ∨
    ∃ level f i, (j.name, .working level) ∈ ask.ledger ∧ ask.frames.reverse[level]? = some f ∧
      env.initializer? j = some i ∧ f.cls = j ∧ i.callee = .body j f.method

/-- The initialiser of a loaded class is called, where the initialisers of `failures` have failed
before: those of its proper superclasses have been called, and all of them but these have returned
or are at work. -/
structure Ask.Sound (env : Environment) (failures : List String) (ask : Ask) (k : Class) :
    Prop where
  loaded : ask.area.class? ask.call.target.className = some k
  initializer : env.initializer? k = some ask.call
  earlier : ask.ledger.failures = failures
  superclasses : ∀ j ∈ k.lineage.tail, (env.initializer? j).isSome →
    (ask.Serves env j ↔ j.name ∉ failures)

/-! ### Ledgers that are right -/

namespace Ledger

/-- Just those classes with initialisers that have been started are in the ledger, each once. -/
structure Complete (env : Environment) (L : Ledger) (a : MethodArea) : Prop where
  linked : a.Linked
  orderly : a.Orderly
  all : ∀ k j, a.class? k.name = some k → a.Started k.name → env.initializer? k = some j →
    k.name ∈ L.map Prod.fst
  started : ∀ name ∈ L.map Prod.fst, a.Started name
  distinct : (L.map Prod.fst).Nodup

/-- Whoever is at work is so in one of the frames, or in the call that is made next. -/
def Placed (env : Environment) (L : Ledger) (a : MethodArea) (owners : List (Class × Method))
    (next? : Option Invocation) : Prop :=
  ∀ name level, (name, .working level) ∈ L →
    ∃ k i, a.class? name = some k ∧ env.initializer? k = some i ∧
      ((∃ m, owners[level]? = some (k, m) ∧ i.callee = .body k m) ∨
        level = owners.length ∧ next? = some i)

variable {env : Environment} {L : Ledger} {a b : MethodArea} {name : String} {outcome : Fate}
  {owners owners' : List (Class × Method)} {next? : Option Invocation}

theorem Complete.fate_unique {fate fate' : Fate} (h : L.Complete env a) (hmem : (name, fate) ∈ L)
    (hmem' : (name, fate') ∈ L) : fate = fate' :=
  congrArg Prod.snd (List.inj_on_of_nodup_map h.distinct hmem hmem' rfl)

theorem Complete.empty (env : Environment) : Complete env [] .empty where
  linked := .empty
  orderly := .empty
  all _ _ h := by cases h
  started _ h := by cases h
  distinct := List.nodup_nil

theorem Complete.ended (h : L.Complete env a) (outcome : Fate) (depth : Nat) :
    (L.ended outcome depth).Complete env a where
  linked := h.linked
  orderly := h.orderly
  all k j := by
    rw [names_ended]
    exact h.all k j
  started := by
    rw [names_ended]
    exact h.started
  distinct := by
    rw [names_ended]
    exact h.distinct

theorem Complete.later (h : L.Complete env a) (hab : Evolves env a b)
    (hnone : ∀ k j, b.class? k.name = some k → b.Started k.name → env.initializer? k = some j →
      a.Started k.name) : L.Complete env b where
  linked := hab.linked h.linked
  orderly := hab.orderly h.linked h.orderly
  all k j hk hstarted hj := by
    have hold := hnone k j hk hstarted hj
    exact h.all k j (hold.class? h.linked hab hk) hold hj
  started n hn := hab.started h.linked (h.started n hn)
  distinct := h.distinct

theorem Complete.asked {k : Class} {call : Invocation} {fate : Fate} (h : L.Complete env a)
    (hab : Evolves env a b) (hnew : ¬ a.Started k.name) (hstarted : b.Started k.name)
    (hcall : env.initializer? k = some call)
    (hothers : ∀ k' j, b.class? k'.name = some k' → b.Started k'.name →
      env.initializer? k' = some j → a.Started k'.name ∨ call = j) :
    Complete env ((call.target.className, fate) :: L) b := by
  have hname : call.target.className = k.name := Environment.initializer?_target hcall
  rw [hname]
  constructor
  · exact hab.linked h.linked
  · exact hab.orderly h.linked h.orderly
  · intro k' j hk' hstarted' hj
    rw [List.map_cons]
    rcases hothers k' j hk' hstarted' hj with hold | rfl
    · exact List.mem_cons_of_mem _ (h.all k' j (hold.class? h.linked hab hk') hold hj)
    · rw [← hname, Environment.initializer?_target hj]
      exact List.mem_cons_self
  · rw [List.map_cons, List.forall_mem_cons]
    exact ⟨hstarted, fun n hn => hab.started h.linked (h.started n hn)⟩
  · exact List.nodup_cons.mpr ⟨fun hmem => hnew (h.started _ hmem), h.distinct⟩

theorem Placed.later (ha : a.Linked) (hab : Evolves env a b)
    (h : L.Placed env a owners next?) : L.Placed env b owners next? := by
  intro name level hmem
  obtain ⟨k, i, hk, hi, hplace⟩ := h name level hmem
  exact ⟨k, i, hab.class? ha hk, hi, hplace⟩

theorem Placed.enter {cls : Class} {m : Method} (h : L.Placed env a owners next?)
    (hnext : ∀ j, next? = some j → j.callee = .body cls m) :
    L.Placed env a (owners ++ [(cls, m)]) none := by
  intro name level hmem
  obtain ⟨k, i, hk, hi, ⟨m', hget, hcallee⟩ | ⟨rfl, hcall⟩⟩ := h name level hmem
  · refine ⟨k, i, hk, hi, .inl ⟨m', ?_, hcallee⟩⟩
    have hlt : level < owners.length := (List.getElem?_eq_some_iff.mp hget).1
    rw [List.getElem?_append_left hlt, hget]
  · have hcallee := hnext i hcall
    obtain rfl : cls = k := Environment.initializer?_method hi (congrArg Callee.method? hcallee)
    exact ⟨cls, i, hk, hi, .inl ⟨m, by simp, hcallee⟩⟩

theorem Placed.ended (h : L.Placed env a owners next?)
    (houtcome : ∀ n, outcome ≠ .working n) (howners : owners' <+: owners) :
    (L.ended outcome owners'.length).Placed env a owners' none := by
  intro name level hmem
  obtain ⟨hlt, hmem⟩ := working_of_ended houtcome hmem
  obtain ⟨rest, rfl⟩ := howners
  obtain ⟨k, i, hk, hi, ⟨m, hget, hcallee⟩ | ⟨rfl, -⟩⟩ := h name level hmem
  · rw [List.getElem?_append_left hlt] at hget
    exact ⟨k, i, hk, hi, .inl ⟨m, hget, hcallee⟩⟩
  · rw [List.length_append] at hlt
    omega

/-- The ledger is right for a thread: it is complete, and whoever is at work has a frame. -/
structure Faithful (env : Environment) (L : Ledger) (t : Thread) : Prop where
  complete : L.Complete env t.world.area
  placed : L.Placed env t.world.area t.owners none

end Ledger

/-! ### One call of an initialiser -/

theorem Class.lineage_eq (c : Class) : c.lineage = c :: c.lineage.tail := by
  obtain ⟨file, _ | ⟨parent, rest⟩⟩ := c <;> rfl

section

variable {env : Environment} {L : Ledger} {t : Thread} {b : MethodArea} {call : Invocation}
  {k : Class}

/-- The initialiser of a loaded class is called, and the class has been started for this. -/
structure MethodArea.Initiates (env : Environment) (a b : MethodArea) (call : Invocation)
    (k : Class) : Prop where
  loaded : b.class? k.name = some k
  new : ¬ a.Started k.name
  started : b.Started k.name
  initializer : env.initializer? k = some call

theorem Ledger.Faithful.sound (h : L.Faithful env t) (hab : Evolves env t.world.area b)
    (hk : MethodArea.Initiates env t.world.area b call k)
    (hothers : ∀ k' j, b.class? k'.name = some k' → b.Started k'.name →
      env.initializer? k' = some j → t.world.area.Started k'.name ∨ call = j) :
    Ask.Sound env L.failures ⟨call, t.frames, b, L⟩ k := by
  have hname : call.target.className = k.name := Environment.initializer?_target hk.initializer
  have hb : b.Linked := hab.linked h.complete.linked
  refine ⟨by rw [hname]; exact hk.loaded, hk.initializer, rfl, fun j hj hinit => ?_⟩
  obtain ⟨i, hi⟩ := Option.isSome_iff_exists.mp hinit
  have hmem : j ∈ k.lineage := List.mem_of_mem_tail hj
  have hloaded : b.class? j.name = some j := hb.lineage hk.loaded hmem
  have hne : j.name ≠ k.name := by
    have hnodup := hb.lineage_nodup hk.loaded
    rw [Class.lineage_eq, List.map_cons, List.nodup_cons] at hnodup
    exact fun heq => hnodup.1 (heq ▸ List.mem_map_of_mem hj)
  -- A started class has started superclasses, and of all classes with initialisers only `k` is new.
  have hbefore : t.world.area.Started j.name := by
    have horderly := hab.orderly h.complete.linked h.complete.orderly
    rcases hothers j i hloaded (horderly _ k j hk.loaded hk.started hmem) hi with hold | rfl
    · exact hold
    · exact absurd ((Environment.initializer?_target hi).symm.trans hname) hne
  have hclass := hbefore.class? h.complete.linked hab hloaded
  obtain ⟨⟨n, fate⟩, hentry, hn⟩ := List.mem_map.mp (h.complete.all j i hclass hbefore hi)
  obtain rfl : n = j.name := hn
  rw [Ledger.mem_failures]
  constructor
  · rintro (hreturned | ⟨level, f, i', hworking, -⟩) hfailed
    · cases h.complete.fate_unique hreturned hfailed
    · cases h.complete.fate_unique hworking hfailed
  · intro hkept
    cases fate with
    | returned => exact .inl hentry
    | failed => exact absurd hentry hkept
    | working level =>
      obtain ⟨k', i', hk', hi', ⟨m, hget, hcallee⟩ | ⟨-, hnone⟩⟩ := h.placed _ level hentry
      · rw [hclass] at hk'
        cases hk'
        rw [Thread.owners, List.getElem?_map, Option.map_eq_some_iff] at hget
        obtain ⟨f, hf, howner⟩ := hget
        obtain ⟨hcls, rfl⟩ := Prod.mk.inj howner
        exact .inr ⟨level, f, i', hentry, hf, hi', hcls, hcallee⟩
      · cases hnone

end

/-- Every call in the annals is sound where the initialisers of `failures` have failed. -/
def Annals.Sound (env : Environment) (failures : List String) (A : Annals) : Prop :=
  ∀ ask ∈ A.asks, ∃ k, ask.Sound env failures k

namespace Annals

variable {env : Environment} {failures : List String} {A : Annals} {L : Ledger} {t : Thread}
  {b : MethodArea} {call? : Option Invocation}

theorem Sound.idle (L : Ledger) : (Annals.idle L).Sound env failures := by
  intro ask h
  cases h

theorem Sound.andThen {next : Ledger → Annals} (h : A.Sound env failures)
    (hnext : (next A.ledger).Sound env failures) : (A.andThen next).Sound env failures := by
  intro ask hask
  rcases List.mem_append.mp hask with hask | hask
  · exact h ask hask
  · exact hnext ask hask

/-- The annals of something that comes to `outcome?`: every call is sound, the ledger is right in
the end, and it has no new failures unless the outcome is a fault. -/
structure Tells {α : Type} (env : Environment) (failures : List String)
    (outcome? : Option (Except Fault α × Thread)) (A : Annals) : Prop where
  sound : A.Sound env failures
  faithful : ∀ result u, outcome? = some (result, u) → A.ledger.Faithful env u
  kept : ∀ value u, outcome? = some (.ok value, u) → A.ledger.failures = failures

section

variable {α : Type} {outcome? : Option (Except Fault α × Thread)} {u : Thread}

theorem Tells.unknown (L : Ledger) :
    Tells env failures (none : Option (Except Fault α × Thread)) (idle L) where
  sound := .idle L
  faithful _ _ h := by cases h
  kept _ _ h := by cases h

theorem Tells.failed (h : L.Faithful env u) (fault : Fault) :
    Tells env failures (some ((.error fault : Except Fault α), u)) (idle L) where
  sound := .idle L
  faithful _ _ heq := by
    cases heq
    exact h
  kept _ _ heq := by cases heq

theorem Tells.returned (h : L.Faithful env u) (hkept : L.failures = failures) (value : α) :
    Tells env failures (some ((.ok value : Except Fault α), u)) (idle L) where
  sound := .idle L
  faithful _ _ heq := by
    cases heq
    exact h
  kept _ _ _ := hkept

theorem Tells.andThen {next : Ledger → Annals} (h : A.Sound env failures)
    (hnext : Tells env failures outcome? (next A.ledger)) :
    Tells env failures outcome? (A.andThen next) where
  sound := h.andThen hnext.sound
  faithful := hnext.faithful
  kept := hnext.kept

end

theorem failures_asking (call? : Option Invocation) (t : Thread) (b : MethodArea) (L : Ledger) :
    (asking call? t b L).ledger.failures = L.failures := by
  cases call? <;> rfl

theorem asking_sound (h : L.Faithful env t) (hab : Evolves env t.world.area b)
    (hcall : ∀ call, call? = some call → ∃ k, MethodArea.Initiates env t.world.area b call k)
    (hothers : ∀ k j, b.class? k.name = some k → b.Started k.name →
      env.initializer? k = some j → t.world.area.Started k.name ∨ call? = some j) :
    (asking call? t b L).Sound env L.failures ∧ (asking call? t b L).ledger.Complete env b ∧
      (asking call? t b L).ledger.Placed env b t.owners call? := by
  have hplaced := h.placed.later h.complete.linked hab
  cases call? with
  | none =>
    refine ⟨.idle L, h.complete.later hab fun k j hk hstarted hj => ?_, hplaced⟩
    rcases hothers k j hk hstarted hj with hold | hnone
    · exact hold
    · cases hnone
  | some call =>
    obtain ⟨k, hk⟩ := hcall call rfl
    have hothers' : ∀ k' j, b.class? k'.name = some k' → b.Started k'.name →
        env.initializer? k' = some j → t.world.area.Started k'.name ∨ call = j :=
      fun k' j hk' hstarted hj => (hothers k' j hk' hstarted hj).imp_right Option.some.inj
    refine ⟨fun ask hask => ?_, ?_, fun name level hmem => ?_⟩
    · obtain rfl := List.mem_singleton.mp hask
      exact ⟨k, h.sound hab hk hothers'⟩
    · exact h.complete.asked hab hk.new hk.started hk.initializer hothers'
    · rcases List.mem_cons.mp hmem with heq | hmem
      · cases heq
        refine ⟨k, call, ?_, hk.initializer, .inr ⟨t.length_owners.symm, rfl⟩⟩
        rw [Environment.initializer?_target hk.initializer]
        exact hk.loaded
      · obtain ⟨k', i, hk', hi, ⟨m, hget, hcallee⟩ | ⟨-, hnone⟩⟩ := hplaced name level hmem
        · exact ⟨k', i, hk', hi, .inl ⟨m, hget, hcallee⟩⟩
        · cases hnone

end Annals

theorem Fate.of_ne_working {α : Type} (result : Except Fault α) (n : Nat) :
    Fate.of result ≠ .working n := by
  cases result <;> simp [of]

namespace Thread

variable {env : Environment} {L : Ledger} {t u : Thread} {base pc fuel : Nat}

theorem exists_initiates (hn : env.NativesEvolve) (ha : t.world.area.Linked) {call : Invocation}
    (hcall : request? env t pc = some call) (base : Nat) :
    ∃ k, MethodArea.Initiates env t.world.area (step env base t pc).thread.world.area call k := by
  obtain ⟨f, below, i, s, byte, hframes, hpc, hat, hexec⟩ := request?_eq_some hcall
  obtain ⟨frames, w⟩ := t
  obtain rfl : frames = f :: below := hframes
  obtain ⟨find, x, b, k, hasked⟩ := ClassUse.exists_deferral ha hexec
  have hb : b.Linked := hasked.found.linked ha
  have hs : s.world.area.Linked := hasked.claimed.linked hb
  have hafter := step_evolves_after hn hpc hat hexec hs
    (Environment.initializer?_known hasked.initializer) base
  have hx := ClassUse.class?_of_find? hasked.find? ha hasked.find
  have hloaded := hasked.claimed.class? hb (hb.lineage hx hasked.mem)
  exact ⟨k, hafter.class? hs hloaded, fun hold => hasked.new (hasked.found.started ha hold),
    hafter.started hs hasked.started, hasked.initializer⟩

theorem step_faithful (hn : env.NativesEvolve) (hs : env.NativesStartNone) (h : L.Faithful env t)
    (base pc : Nat) :
    let next := (step env base t pc).thread
    let asked := Annals.asking (request? env t pc) t next.world.area L
    asked.Sound env L.failures ∧ ∀ outcome : Fate, (∀ n, outcome ≠ .working n) →
      (asked.ledger.ended outcome next.depth).Faithful env next := by
  intro next asked
  have ha := h.complete.linked
  obtain ⟨hsound, hcomplete, hplaced⟩ := Annals.asking_sound h (step_evolves hn ha base pc)
    (fun call hcall => exists_initiates hn ha hcall base)
    fun k j hk hstarted hj => step_starts hn hs ha base pc hk hstarted hj
  refine ⟨hsound, fun outcome houtcome => ⟨hcomplete.ended _ _, ?_⟩⟩
  rw [← next.length_owners]
  rcases step_owners env base t pc with hlower | ⟨cls, m, howners, hbody⟩
  · exact hplaced.ended houtcome hlower
  · refine (hplaced.enter hbody).ended houtcome ?_
    exact howners ▸ List.prefix_rfl

theorem loopAnnals_tells (hn : env.NativesEvolve) (hs : env.NativesStartNone) (base fuel : Nat)
    (h : L.Faithful env t) (pc : Nat) :
    Annals.Tells env L.failures (loop env base fuel t pc) (loopAnnals env base fuel t pc L) := by
  induction fuel generalizing t pc L with
  | zero => exact .unknown L
  | succ fuel ih =>
    obtain ⟨hsound, hended⟩ := step_faithful hn hs h base pc
    have hfailures := Annals.failures_asking (request? env t pc) t
      (step env base t pc).thread.world.area L
    rw [loopAnnals, loop]
    cases hstep : step env base t pc with
    | running v pc' =>
      rw [hstep] at hsound hended hfailures
      have hrest := ih (hended .returned (by simp)) pc'
      rw [Ledger.failures_returned, hfailures] at hrest
      exact .andThen hsound hrest
    | finished r v =>
      rw [hstep] at hsound hended hfailures
      refine .andThen hsound ?_
      have hv := hended (.of r) (Fate.of_ne_working r)
      cases r with
      | error fault => exact .failed hv fault
      | ok value => exact .returned hv ((Ledger.failures_returned _ _).trans hfailures) value

theorem callNative_startsNone (hn : env.NativesEvolve) (hs : env.NativesStartNone)
    {r : MemberRef} {run : Native} (hrun : env.natives.find? r = some run) (i : Invocation)
    (ha : t.world.area.Linked) :
    (callNative run i t).2.owners = t.owners ∧
      Evolves env t.world.area (callNative run i t).2.world.area ∧
      t.world.area.StartsNone (callNative run i t).2.world.area := by
  have hevolves := hn r run hrun t.callSite i.nativeArguments t.world ha
  unfold callNative
  rcases hcall : run t.callSite i.nativeArguments t.world with ⟨f | value, w⟩ <;>
  · rw [hcall] at hevolves
    exact ⟨rfl, hevolves, hs.apply hrun hcall⟩

/-- A call is made, perhaps that of an initialiser that is already in the ledger. -/
theorem callAnnals_tells (hn : env.NativesEvolve) (hs : env.NativesStartNone) (fuel : Nat)
    {i : Invocation} {next? : Option Invocation} (hi : i.Known env)
    (hcomplete : L.Complete env t.world.area)
    (hplaced : L.Placed env t.world.area t.owners next?) (hnext : ∀ j, next? = some j → j = i) :
    Annals.Tells env L.failures (execute env fuel i t) (callAnnals env fuel i t L) := by
  -- Without a frame for the call nobody is at work any more, whatever the outcome.
  have hover : ∀ outcome : Fate, (∀ n, outcome ≠ .working n) →
      (L.ended outcome t.depth).Faithful env t := by
    intro outcome houtcome
    refine ⟨hcomplete.ended _ _, ?_⟩
    rw [← t.length_owners]
    exact hplaced.ended houtcome List.prefix_rfl
  unfold callAnnals execute
  cases hcallee : i.callee with
  | native run method? =>
    obtain ⟨r, hr⟩ := hi run method? hcallee
    obtain ⟨howners, hevolves, hnone⟩ := callNative_startsNone hn hs hr i hcomplete.linked
    have hafter : (L.ended (.of (callNative run i t).1) t.depth).Faithful env
        (callNative run i t).2 := by
      have hended := hover (.of (callNative run i t).1) (Fate.of_ne_working _)
      refine ⟨hended.complete.later hevolves fun k j _ hstarted _ => hnone _ hstarted, ?_⟩
      rw [howners]
      exact hended.placed.later hcomplete.linked hevolves
    dsimp only
    rcases hcall : callNative run i t with ⟨fault | value, u⟩
    · rw [hcall] at hafter
      exact .failed hafter fault
    · rw [hcall] at hafter
      exact .returned hafter (Ledger.failures_returned _ _) value
  | body cls method =>
    dsimp only
    cases hpush : t.push env cls method i with
    | error fault => exact .failed (hover .failed (by simp)) fault
    | ok entered =>
      have hentered : L.Faithful env entered := by
        obtain ⟨-, f, hmake, rfl⟩ := push_eq_ok_iff.mp hpush
        refine ⟨hcomplete, ?_⟩
        rw [owners_cons, Frame.owner_make hmake]
        refine hplaced.enter fun j hj => ?_
        rw [hnext j hj, hcallee]
      exact loopAnnals_tells hn hs t.depth fuel hentered 0

theorem initializeAnnals_tells (hn : env.NativesEvolve) (hs : env.NativesStartNone) (fuel : Nat)
    {c : Class} (n : Nat) (h : L.Faithful env t) (hc : t.world.area.class? c.name = some c) :
    Annals.Tells env L.failures (initializeWithin env fuel c n t)
      (initializeAnnals env fuel c n t L) := by
  induction n generalizing t L with
  | zero => exact .returned h rfl ()
  | succ n ih =>
    have ha := h.complete.linked
    rw [initializeAnnals, initializeWithin]
    rcases hclaim : World.onArea (env.initStep c) t.world with ⟨r, w⟩
    have hnext := World.onArea_eq hclaim
    have hevolves : Evolves env t.world.area w.area := .step (.refl env _) (.of_initStep hc hnext)
    have hstarts : ∀ k j, w.area.class? k.name = some k → w.area.Started k.name →
        env.initializer? k = some j → t.world.area.Started k.name ∨ r = .ok (some j) :=
      fun k j hk hstarted hj => Environment.initStep_starts ha hc hnext hk hstarted hj
    have hidle : (∀ j, r ≠ .ok (some j)) → L.Faithful env { t with world := w } := by
      intro hr
      refine ⟨h.complete.later hevolves fun k j hk hstarted hj => ?_, h.placed.later ha hevolves⟩
      exact (hstarts k j hk hstarted hj).resolve_right (hr j)
    rcases r with fault | _ | i
    · exact .failed (hidle (by simp)) fault
    · exact .returned (hidle (by simp)) rfl ()
    · -- An initialiser is called, and when it returns the others follow.
      obtain ⟨k, hk, hnew, hstarted, hinit⟩ := env.initStep_some ha hc hnext
      have hcalled : ∀ call, some i = some call →
          ∃ k, MethodArea.Initiates env t.world.area w.area call k := by
        rintro call ⟨⟩
        exact ⟨k, hevolves.class? ha (ha.lineage hc hk), hnew, hstarted, hinit⟩
      obtain ⟨hasked, hcomplete, hplaced⟩ := Annals.asking_sound h hevolves hcalled
        fun k j hk hstarted hj => (hstarts k j hk hstarted hj).imp_right Except.ok.inj
      have hcall := callAnnals_tells hn hs (t := { t with world := w }) fuel
        (Environment.initializer?_known hinit) hcomplete hplaced
        fun j hj => (Option.some.inj hj).symm
      rw [Annals.failures_asking (some i) t w.area L] at hcall
      refine .andThen (hasked.andThen hcall.sound) ?_
      dsimp only
      rcases hexec : execute env fuel i { t with world := w } with _ | ⟨fault | value, u⟩
      · exact .unknown _
      · exact .failed (hcall.faithful _ _ hexec) fault
      · have hlater : Evolves env w.area u.world.area :=
          execute_evolves hn hcomplete.linked (Environment.initializer?_known hinit) hexec
        have hcu : u.world.area.class? c.name = some c :=
          hlater.class? hcomplete.linked (hevolves.class? ha hc)
        have hrest := ih (hcall.faithful _ _ hexec) hcu
        rwa [hcall.kept value u hexec] at hrest

theorem runAnnals_tells (hn : env.NativesEvolve) (hs : env.NativesStartNone) (fuel : Nat)
    (r : MemberRef) (arguments : List Value) (h : L.Faithful env t) :
    Annals.Tells env L.failures (run env fuel r arguments t)
      (runAnnals env fuel r arguments t L) := by
  have ha := h.complete.linked
  unfold runAnnals run
  rcases hload : World.onArea (env.loader.ensure r.className) t.world with ⟨found, w⟩
  have hensure := World.onArea_eq hload
  have hopened : Evolves env t.world.area w.area := .step (.refl env _) (.of_ensure hensure)
  have hextended : t.world.area.Extended w.area :=
    (env.loader.preserves_extended _).ensure r.className |>.apply (.refl _) hensure
  have hw : L.Faithful env { t with world := w } := by
    refine ⟨h.complete.later hopened fun k j _ hstarted _ => ?_, h.placed.later ha hopened⟩
    exact hextended.startsNone _ hstarted
  rcases found with fault | c
  · exact .failed hw fault
  · have hc : w.area.class? c.name = some c := by
      have hclass := Loader.ensure_class? hensure
      rwa [MethodArea.name_of_class? hclass]
    have hinits := initializeAnnals_tells hn hs fuel (c.lineage.length + 1) hw hc
    refine .andThen hinits.sound ?_
    dsimp only
    rw [initializeClass]
    rcases hinit : initializeWithin env fuel c (c.lineage.length + 1) { t with world := w } with
      _ | ⟨fault | _, u⟩
    · exact .unknown _
    · exact .failed (hinits.faithful _ _ hinit) fault
    · have hu := hinits.faithful _ _ hinit
      dsimp only
      cases hentry : entryCall env c r arguments with
      | error fault => exact .failed hu fault
      | ok i =>
        have hcall := callAnnals_tells hn hs fuel (Invariant.entryCall_known hentry) hu.complete
          hu.placed (by simp)
        rwa [hinits.kept () u hinit] at hcall

/-! The annals leave nothing out. -/

theorem loopAnnals_requests (base fuel : Nat) (t : Thread) (pc : Nat) (L : Ledger) :
    ((loopAnnals env base fuel t pc L).asks.map fun ask => ask.call.target.className) =
      loopRequests env base fuel t pc := by
  induction fuel generalizing t pc L with
  | zero => rfl
  | succ fuel ih =>
    have hasking : ∀ area, ((Annals.asking (request? env t pc) t area L).asks.map
        fun ask => ask.call.target.className) =
        (request? env t pc).toList.map fun j => j.target.className := by
      intro area
      cases request? env t pc <;> rfl
    rw [loopAnnals, loopRequests, Annals.andThen, List.map_append, hasking]
    cases step env base t pc with
    | running u pc' =>
      congr 1
      exact ih _ _ _
    | finished result u => rfl

theorem callAnnals_requests (fuel : Nat) (i : Invocation) (t : Thread) (L : Ledger) :
    ((callAnnals env fuel i t L).asks.map fun ask => ask.call.target.className) =
      callRequests env fuel i t := by
  unfold callAnnals callRequests
  cases i.callee with
  | native run method? => rfl
  | body cls method =>
    dsimp only
    cases t.push env cls method i with
    | error f => rfl
    | ok entered => exact loopAnnals_requests _ _ _ _ _

theorem initializeAnnals_requests (fuel : Nat) (c : Class) (n : Nat) (t : Thread) (L : Ledger) :
    ((initializeAnnals env fuel c n t L).asks.map fun ask => ask.call.target.className) =
      initializeRequests env fuel c n t := by
  induction n generalizing t L with
  | zero => rfl
  | succ n ih =>
    rw [initializeAnnals, initializeRequests]
    rcases World.onArea (env.initStep c) t.world with ⟨f | _ | i, w⟩
    · rfl
    · rfl
    · simp only [Annals.andThen, List.map_append, callAnnals_requests, List.append_assoc]
      congr 2
      rcases execute env fuel i { t with world := w } with _ | ⟨f | value, u⟩
      · rfl
      · rfl
      · exact ih _ _

theorem runAnnals_requests (fuel : Nat) (r : MemberRef) (arguments : List Value) (t : Thread)
    (L : Ledger) :
    ((runAnnals env fuel r arguments t L).asks.map fun ask => ask.call.target.className) =
      runRequests env fuel r arguments t := by
  unfold runAnnals runRequests
  rcases World.onArea (env.loader.ensure r.className) t.world with ⟨f | c, w⟩
  · rfl
  · dsimp only
    rw [Annals.andThen, List.map_append, initializeAnnals_requests]
    congr 1
    rcases initializeClass env fuel c { t with world := w } with _ | ⟨f | _, u⟩
    · rfl
    · rfl
    · dsimp only
      cases entryCall env c r arguments with
      | error f => rfl
      | ok i => exact callAnnals_requests _ _ _ _

end Thread

/-! ### Runs one after the other -/

namespace Runtime

/-- The runtimes that runs can lead to, whatever came of these runs, each with its ledger. Between
runs the host may load classes and store into static fields. -/
inductive Chronicle (env : Environment) : Ledger → Runtime → Prop where
  | fresh : Chronicle env [] .empty
  | host {L : Ledger} {rt rt' : Runtime} (h : Chronicle env L rt)
    (hevolves : Evolves env rt.world.area rt'.world.area)
    (hnone : rt.world.area.StartsNone rt'.world.area) : Chronicle env L rt'
  | run {L : Ledger} {rt rt' : Runtime} {fuel : Nat} {r : MemberRef} {arguments : List Value}
    {result : Except Fault Value} (h : Chronicle env L rt)
    (hrun : rt.run env fuel r arguments = some (result, rt')) :
    Chronicle env (Thread.runAnnals env fuel r arguments ⟨[], rt.world⟩ L).ledger rt'

variable {env : Environment} {L : Ledger} {rt : Runtime}

theorem Chronicle.faithful (hn : env.NativesEvolve) (hs : env.NativesStartNone)
    (h : Chronicle env L rt) : L.Faithful env ⟨[], rt.world⟩ := by
  induction h with
  | fresh => exact ⟨.empty env, fun _ _ hmem => by cases hmem⟩
  | @host L rt rt' h hevolves hnone ih =>
    refine ⟨ih.complete.later hevolves fun k j _ hstarted _ => hnone _ hstarted, ?_⟩
    exact ih.placed.later ih.complete.linked hevolves
  | @run L rt rt' fuel r arguments result h hrun ih =>
    obtain ⟨⟨result', u⟩, hthread, hrt'⟩ := Option.map_eq_some_iff.mp hrun
    cases hrt'
    have hu := (Thread.runAnnals_tells hn hs fuel r arguments ih).faithful _ u hthread
    obtain ⟨frames, w⟩ := u
    obtain rfl : frames = [] := Thread.run_frames hthread
    exact hu

/-- Over any number of runs on one runtime: whenever the initialiser of a class is called, those of
its proper superclasses have been called before, and each of them has returned or is at work in one
of the frames of the thread, unless it has failed in an earlier run. Only a run that fails makes
initialisers fail. -/
theorem superclasses_first (hn : env.NativesEvolve) (hs : env.NativesStartNone)
    (h : Chronicle env L rt) (fuel : Nat) (r : MemberRef) (arguments : List Value) :
    let annals := Thread.runAnnals env fuel r arguments ⟨[], rt.world⟩ L
    (annals.asks.map fun ask => ask.call.target.className) =
      Thread.runRequests env fuel r arguments ⟨[], rt.world⟩ ∧
    (∀ ask ∈ annals.asks, ∃ k, ask.Sound env L.failures k) ∧
    ∀ value rt', rt.run env fuel r arguments = some (.ok value, rt') →
      annals.ledger.failures = L.failures := by
  intro annals
  have htells := Thread.runAnnals_tells hn hs fuel r arguments (h.faithful hn hs)
  refine ⟨Thread.runAnnals_requests _ _ _ _ _, htells.sound, fun value rt' hrun => ?_⟩
  obtain ⟨⟨result, u⟩, hthread, hrt'⟩ := Option.map_eq_some_iff.mp hrun
  cases hrt'
  exact htells.kept value u hthread

/-! ### A superclass that has failed -/

/-- There is room for one frame only. -/
def narrowEnvironment : Environment := { chainEnvironment with maxDepth := 1 }

def chainTarget : MemberRef := ⟨"D", "m", "()V"⟩

-- `A.m` has no room for the initialiser of `C`.
theorem narrow_chronicle : ∃ rt, Chronicle narrowEnvironment [("C", .failed)] rt ∧
    ∃ ask ∈ (Thread.runAnnals narrowEnvironment 20 chainTarget [] ⟨[], rt.world⟩
      [("C", .failed)]).asks, ask.call.target.className = "D" ∧ ask.ledger = [("C", .failed)] ∧
      (ask.area.class? "D").map (fun k => k.lineage.tail.map fun j =>
        (j.name, (narrowEnvironment.initializer? j).isSome)) = some [("C", true)] := by
  have hledger : (Thread.runAnnals narrowEnvironment 20 chainEntry [] ⟨[], .empty⟩ []).ledger =
      [("C", .failed)] := by
    decide +kernel
  have hsecond : ((Runtime.empty.run narrowEnvironment 20 chainEntry []).map fun out =>
      (Thread.runAnnals narrowEnvironment 20 chainTarget [] ⟨[], out.2.world⟩
        [("C", .failed)]).asks.any fun ask => decide (ask.call.target.className = "D") &&
          decide (ask.ledger = [("C", .failed)]) &&
          decide ((ask.area.class? "D").map (fun k => k.lineage.tail.map fun j =>
            (j.name, (narrowEnvironment.initializer? j).isSome)) = some [("C", true)])) =
      some true := by
    decide +kernel
  obtain ⟨⟨result, rt⟩, hrun, hasks⟩ := Option.map_eq_some_iff.mp hsecond
  refine ⟨rt, hledger ▸ Chronicle.run .fresh hrun, ?_⟩
  obtain ⟨ask, hmem, hask⟩ := List.any_eq_true.mp hasks
  simp only [Bool.and_eq_true, decide_eq_true_eq] at hask
  exact ⟨ask, hmem, hask.1.1, hask.1.2, hask.2⟩

theorem superclasses_first_narrow :
    narrowEnvironment.NativesEvolve ∧ narrowEnvironment.NativesStartNone ∧
    ∃ rt, Chronicle narrowEnvironment [("C", .failed)] rt ∧
      ∃ (ask : Ask) (k : Class), ask.call.target.className = "D" ∧
        ask.Sound narrowEnvironment ["C"] k := by
  have hn : narrowEnvironment.NativesEvolve := Environment.nativesEvolve_standard rfl
  have hs : narrowEnvironment.NativesStartNone := Environment.nativesStartNone_standard rfl
  obtain ⟨rt, hchronicle, ask, hmem, hname, -⟩ := narrow_chronicle
  obtain ⟨-, hsound, -⟩ := superclasses_first hn hs hchronicle 20 chainTarget []
  obtain ⟨k, hk⟩ := hsound ask hmem
  exact ⟨hn, hs, rt, hchronicle, ask, k, hname, hk⟩

/-- The initialiser of `D` is called though that of its superclass `C` has neither returned nor is
it at work. -/
theorem superclass_passed_over :
    ∃ L rt, Chronicle narrowEnvironment L rt ∧
      ∃ ask ∈ (Thread.runAnnals narrowEnvironment 20 chainTarget [] ⟨[], rt.world⟩ L).asks,
        ∃ k j, ask.area.class? ask.call.target.className = some k ∧ j ∈ k.lineage.tail ∧
          (narrowEnvironment.initializer? j).isSome ∧ ¬ ask.Serves narrowEnvironment j := by
  obtain ⟨rt, hchronicle, ask, hmem, hname, hledger, hclass⟩ := narrow_chronicle
  obtain ⟨k, hk, htail⟩ := Option.map_eq_some_iff.mp hclass
  obtain ⟨j, rest, heq, hj, -⟩ := List.map_eq_cons_iff.mp htail
  obtain ⟨hjname, hinit⟩ := Prod.mk.inj hj
  refine ⟨_, rt, hchronicle, ask, hmem, k, j, ?_, ?_, hinit, ?_⟩
  · rw [hname]
    exact hk
  · rw [heq]
    exact List.mem_cons_self
  · rintro (hreturned | ⟨level, f, i, hworking, -⟩)
    · simp [hledger] at hreturned
    · simp [hledger] at hworking

end Runtime

end Jvm
