import Jvm.Machine.Runtime
import Jvm.Proofs.Machine.Nesting
import Jvm.Proofs.Machine.Preservation

/-!
# Class initialisation

Over any number of runs, the machine asks for the initialiser of a class at most once, and a class
is started only after its superclasses. An instruction that needs a started class works with it only
when it and its superclasses have been started, and each time it is put off one more of them has.
-/

namespace Jvm

open MethodArea (Evolves)

/-! ### The classes of a run -/

/-- The registered natives reach the classes by loading, by storing into static fields and by
starting, and in no other way. -/
def Environment.NativesEvolve (env : Environment) : Prop :=
  ∀ r run, env.natives.find? r = some run → ∀ site arguments w, w.area.Linked →
    Evolves env w.area (run site arguments w).2.area

/-- The invariant that asks only that classes evolve. -/
def Invariant.evolution (env : Environment) : Invariant env where
  Good _ := True
  Holds _ _ := True
  good _ := True.intro
  load _ _ := True.intro
  start _ _ _ := True.intro
  allocate _ _ := True.intro
  newString _ _ := True.intro
  field _ _ := True.intro
  putField _ _ _ _ := True.intro
  static _ _ _ := True.intro
  putStatic _ _ _ _ _ := True.intro
  element _ _ _ := True.intro

namespace Invariant

variable {env : Environment} {a : MethodArea}

theorem evolution_thread {t : Jvm.Thread} :
    (evolution env).Thread a t ↔ Evolves env a t.world.area :=
  ⟨fun h => h.world.evolves, fun h => ⟨fun _ _ _ _ => True.intro, h, True.intro⟩⟩

theorem evolution_scene (env : Environment) (s : Jvm.Scene) :
    (evolution env).Scene s.world.area s :=
  ⟨fun _ _ => True.intro, .refl env _, True.intro⟩

theorem evolution_natives (h : env.NativesEvolve) : (evolution env).Natives :=
  fun r run hrun site arguments _ w ha hw =>
    ⟨hw.evolves.trans (h r run hrun site arguments w (hw.evolves.linked ha)), True.intro⟩

end Invariant

theorem Environment.nativesEvolve_standard {env : Environment} (h : env.natives = .standard) :
    env.NativesEvolve := by
  intro r run hrun site arguments w hw
  have hnatives := (Invariant.evolution env).natives_of_standard h
  have hkept := hnatives r run hrun site arguments w.area w hw ⟨.refl env _, True.intro⟩
  exact hkept.evolves

/-! ### Putting an instruction off -/

namespace ClassUse

/-- Only an instruction that needs a started class is put off, and only for the next initialiser of
the chain of that class. -/
theorem pending_of_retry {env : Environment} {depth : Nat} {i : Instruction} {s t : Scene}
    {j : Invocation} (ha : s.world.area.Linked)
    (h : env.execute depth i s = (.ok (.invoke j true), t)) :
    ∃ find x b b', find? env s.frame.pool i = some find ∧ find s.world.area = (.ok x, b) ∧
      env.initStep x.subject b = (.ok (some j), b') ∧ t = s.withArea b' := by
  have hs := Invariant.evolution_scene env s
  cases hfind? : find? env s.frame.pool i with
  | none =>
    obtain ⟨-, hplain⟩ := (Invariant.evolution env).execute_plain hs hfind? depth
    rw [h] at hplain
    cases (hplain _ rfl).1
  | some find =>
    have houtcome := execute_outcome hfind? ha depth
    generalize hresult : env.execute depth i s = result at houtcome
    cases houtcome with
    | unresolved hfind hstatics =>
      rw [h] at hresult
      cases hresult
    | @pending x b b' i hfind hnext hstatics =>
      rw [h] at hresult
      cases hresult
      exact ⟨find, x, b, b', rfl, hfind, hnext, rfl⟩
    | performed hfind hdone hstatics hstarted =>
      obtain ⟨-, hplain⟩ := (Invariant.evolution env).performed_plain ha hs hfind? hfind hdone
      rw [← hresult, h] at hplain
      cases (hplain _ rfl).1

/-- What an instruction asks for when it is put off: the initialiser `j` of a class `k` in the chain
of the class that it needs, which is started by this. -/
structure Deferral (env : Environment) (i : Instruction) (s t : Scene) (j : Invocation)
    (find : Effect MethodArea ClassUse) (x : ClassUse) (b : MethodArea) (k : Class) : Prop where
  find? : ClassUse.find? env s.frame.pool i = some find
  find : find s.world.area = (.ok x, b)
  frame : t.frame = s.frame
  found : Evolves env s.world.area b
  claimed : Evolves env b t.world.area
  mem : k ∈ x.subject.lineage
  new : ¬ b.Started k.name
  started : t.world.area.Started k.name
  initializer : env.initializer? k = some j

theorem exists_deferral {env : Environment} {depth : Nat} {i : Instruction} {s t : Scene}
    {j : Invocation} (ha : s.world.area.Linked)
    (h : env.execute depth i s = (.ok (.invoke j true), t)) :
    ∃ find x b k, Deferral env i s t j find x b k := by
  obtain ⟨find, x, b, b', hfind?, hfind, hnext, rfl⟩ := pending_of_retry ha h
  have hfound : Evolves env s.world.area b :=
    (keeps_of_find? hfind? (MethodArea.preserves_evolves env s.world.area)).apply
      (.refl env _) hfind
  have hx := class?_of_find? hfind? ha hfind
  have hclaim : Evolves env b b' := .step (.refl env b) (.of_initStep hx hnext)
  obtain ⟨k, hk, hnew, hstarted, hinit⟩ := env.initStep_some (hfound.linked ha) hx hnext
  exact ⟨find, x, b, k, hfind?, hfind, rfl, hfound, hclaim, hk, hnew, hstarted, hinit⟩

end ClassUse

namespace Thread

/-! ### The initialisers that are asked for -/

/-- The initialiser that the instruction at `pc` of the current frame asks for. -/
def request? (env : Environment) (t : Thread) (pc : Nat) : Option Invocation :=
  match t.frames with
  | [] => none
  | f :: _ =>
    match f.code.bytes[pc]?, f.code.at? pc with
    | some _, some i =>
      match (env.execute t.depth i ⟨f, t.world⟩).1 with
      | .ok (.invoke j true) => some j
      | _ => none
    | _, _ => none

/-- The classes whose initialisers a loop asks for, in order. -/
def loopRequests (env : Environment) (base : Nat) : Nat → Thread → Nat → List String
  | 0, _, _ => []
  | fuel + 1, t, pc =>
    (request? env t pc).toList.map (fun j => j.target.className) ++
      match step env base t pc with
      | .running u pc' => loopRequests env base fuel u pc'
      | .finished _ _ => []

def callRequests (env : Environment) (fuel : Nat) (i : Invocation) (t : Thread) : List String :=
  match i.callee with
  | .native _ _ => []
  | .body cls method =>
    match t.push env cls method i with
    | .error _ => []
    | .ok entered => loopRequests env t.depth fuel entered 0

def initializeRequests (env : Environment) (fuel : Nat) (c : Class) : Nat → Thread → List String
  | 0, _ => []
  | n + 1, t =>
    match World.onArea (env.initStep c) t.world with
    | (.ok (some i), world) =>
      [i.target.className] ++ (callRequests env fuel i { t with world } ++
        match execute env fuel i { t with world } with
        | some (.ok _, u) => initializeRequests env fuel c n u
        | _ => [])
    | _ => []

def runRequests (env : Environment) (fuel : Nat) (r : MemberRef) (arguments : List Value)
    (t : Thread) : List String :=
  match World.onArea (env.loader.ensure r.className) t.world with
  | (.error _, _) => []
  | (.ok c, world) =>
    initializeRequests env fuel c (c.lineage.length + 1) { t with world } ++
      match initializeClass env fuel c { t with world } with
      | some (.ok (), u) =>
        match entryCall env c r arguments with
        | .error _ => []
        | .ok i => callRequests env fuel i u
      | _ => []

theorem request?_eq_some {env : Environment} {t : Thread} {pc : Nat} {j : Invocation}
    (h : request? env t pc = some j) :
    ∃ f below i s byte, t.frames = f :: below ∧ f.code.bytes[pc]? = some byte ∧
      f.code.at? pc = some i ∧
      env.execute t.depth i ⟨f, t.world⟩ = (.ok (.invoke j true), s) := by
  unfold request? at h
  split at h
  · cases h
  · rename_i f below hframes
    split at h
    · rename_i byte i hbyte hi
      split at h
      · rename_i j' hexec
        cases h
        exact ⟨f, below, i, _, byte, hframes, hbyte, hi, Prod.ext hexec rfl⟩
      · cases h
    · cases h

end Thread

/-- The initialisers of the classes in `log` were asked for one after the other, none of them had
been started before, and if this came to an end in the area `b?`, all of them have been now. -/
structure MethodArea.Asks (a : MethodArea) (log : List String) (b? : Option MethodArea) : Prop where
  nodup : log.Nodup
  new : ∀ n ∈ log, ¬ a.Started n
  done : ∀ b, b? = some b → ∀ n ∈ log, b.Started n

namespace MethodArea

variable {env : Environment} {a b : MethodArea} {b? : Option MethodArea}

theorem Asks.nil (a : MethodArea) (b? : Option MethodArea) : a.Asks [] b? :=
  ⟨List.nodup_nil, by simp, by simp⟩

theorem Asks.singleton {n : String} (hnew : ¬ a.Started n) (hstarted : b.Started n) :
    a.Asks [n] (some b) where
  nodup := by simp
  new := by simpa using hnew
  done := by simpa using hstarted

theorem Asks.from_earlier {log : List String} (ha : a.Linked) (hab : Evolves env a b)
    (h : b.Asks log b?) : a.Asks log b? :=
  ⟨h.nodup, fun n hn hstarted => h.new n hn (hab.started ha hstarted), h.done⟩

/-- What is asked for later has not been started by then, so it has not been asked for before. -/
theorem Asks.append {log log' : List String} (ha : a.Linked) (hab : Evolves env a b)
    (h : a.Asks log (some b)) (h' : b.Asks log' b?) (hb : ∀ c, b? = some c → Evolves env b c) :
    a.Asks (log ++ log') b? where
  nodup := by
    refine List.nodup_append.mpr ⟨h.nodup, h'.nodup, ?_⟩
    rintro n hn _ hn' rfl
    exact h'.new n hn' (h.done b rfl n hn)
  new := by
    intro n hn
    rcases List.mem_append.mp hn with hn | hn
    · exact h.new n hn
    · exact fun hstarted => h'.new n hn (hab.started ha hstarted)
  done := by
    intro c hc n hn
    rcases List.mem_append.mp hn with hn | hn
    · exact (hb c hc).started (hab.linked ha) (h.done b rfl n hn)
    · exact h'.done c hc n hn

end MethodArea

namespace Thread

def Progress.thread : Progress → Thread
  | .running t _ => t
  | .finished _ t => t

section

variable {env : Environment} (hn : env.NativesEvolve)

include hn

theorem step_evolves {t : Thread} (ha : t.world.area.Linked) (base pc : Nat) :
    Evolves env t.world.area (step env base t pc).thread.world.area := by
  have hkept := (Invariant.evolution_natives hn).step_progress ha
    (Invariant.evolution_thread.mpr (.refl env t.world.area)) base pc
  cases hstep : step env base t pc with
  | running u pc' | finished result u =>
    rw [hstep] at hkept
    exact Invariant.evolution_thread.mp hkept

theorem step_evolves_after {f : Frame} {below : List Frame} {w : World} {pc : Nat} {byte : UInt8}
    {i : Instruction} {outcome : Step} {s : Scene} (hpc : f.code.bytes[pc]? = some byte)
    (hat : f.code.at? pc = some i)
    (hexec : env.execute (below.length + 1) i ⟨f, w⟩ = (.ok outcome, s))
    (hs : s.world.area.Linked) (hknown : outcome.Known env) (base : Nat) :
    Evolves env s.world.area (step env base ⟨f :: below, w⟩ pc).thread.world.area := by
  obtain ⟨m, hfollows, hprogress⟩ := exists_follows env i s.frame below s.world outcome
  have hstep : step env base ⟨f :: below, w⟩ pc = m.progress base below := by
    rw [← hprogress]
    simp only [step, hpc, hat, depth, List.length_cons, hexec]
  have hmove := (Invariant.evolution_natives hn).follows_thread hs
    (Invariant.evolution_thread.mpr (.refl env s.world.area)) hknown hfollows
  have hkept := Invariant.progress_of_move _ hmove base
  rw [hstep]
  cases hm : m.progress base below with
  | running u pc' | finished result u =>
    rw [hm] at hkept
    exact Invariant.evolution_thread.mp hkept

/-- A step asks for the initialiser of a class that it starts. -/
theorem step_asks {t : Thread} (ha : t.world.area.Linked) (base pc : Nat) :
    t.world.area.Asks ((request? env t pc).toList.map fun j => j.target.className)
      (some (step env base t pc).thread.world.area) := by
  cases hrequest : request? env t pc with
  | none => exact .nil _ _
  | some j =>
    obtain ⟨f, below, i, s, byte, hframes, hpc, hat, hexec⟩ := request?_eq_some hrequest
    obtain ⟨frames, w⟩ := t
    obtain rfl : frames = f :: below := hframes
    obtain ⟨find, x, b, k, hasked⟩ := ClassUse.exists_deferral ha hexec
    have hs : s.world.area.Linked := hasked.claimed.linked (hasked.found.linked ha)
    have hname : j.target.className = k.name := Environment.initializer?_target hasked.initializer
    have hafter := step_evolves_after hn hpc hat hexec hs
      (Environment.initializer?_known hasked.initializer) base
    simp only [Option.toList_some, List.map_cons, List.map_nil, hname]
    exact .singleton (fun hold => hasked.new (hasked.found.started ha hold))
      (hafter.started hs hasked.started)

theorem loop_evolves {t u : Thread} {base fuel pc : Nat} {result : Except Fault Value}
    (ha : t.world.area.Linked) (h : loop env base fuel t pc = some (result, u)) :
    Evolves env t.world.area u.world.area :=
  Invariant.evolution_thread.mp ((Invariant.evolution_natives hn).loop_thread fuel ha
    (Invariant.evolution_thread.mpr (.refl env t.world.area)) h)

theorem loopRequests_asks {base : Nat} (fuel : Nat) {t : Thread} {pc : Nat}
    (ha : t.world.area.Linked) :
    t.world.area.Asks (loopRequests env base fuel t pc)
      ((loop env base fuel t pc).map fun r => r.2.world.area) := by
  induction fuel generalizing t pc with
  | zero => exact .nil _ _
  | succ fuel ih =>
    have hasks := step_asks hn ha base pc
    have hevolves := step_evolves hn ha base pc
    rw [loopRequests, loop]
    cases hstep : step env base t pc with
    | running u pc' =>
      rw [hstep] at hasks hevolves
      have hu : u.world.area.Linked := hevolves.linked ha
      refine hasks.append ha hevolves (ih hu) fun c hc => ?_
      obtain ⟨⟨result, v⟩, hloop, rfl⟩ := Option.map_eq_some_iff.mp hc
      exact loop_evolves hn hu hloop
    | finished result u =>
      rw [hstep] at hasks
      rw [List.append_nil]
      exact hasks

theorem execute_evolves {t u : Thread} {fuel : Nat} {i : Invocation} {result : Except Fault Value}
    (ha : t.world.area.Linked) (hi : i.Known env) (h : execute env fuel i t = some (result, u)) :
    Evolves env t.world.area u.world.area :=
  Invariant.evolution_thread.mp ((Invariant.evolution_natives hn).execute_thread ha hi
    (Invariant.evolution_thread.mpr (.refl env t.world.area)) h)

theorem callRequests_asks {t : Thread} (fuel : Nat) (i : Invocation) (ha : t.world.area.Linked) :
    t.world.area.Asks (callRequests env fuel i t)
      ((execute env fuel i t).map fun r => r.2.world.area) := by
  unfold callRequests execute
  cases i.callee with
  | native run method? => exact .nil _ _
  | body cls method =>
    dsimp only
    cases hpush : t.push env cls method i with
    | error f => exact .nil _ _
    | ok entered =>
      have harea : entered.world.area = t.world.area := by
        obtain ⟨-, f, -, rfl⟩ := push_eq_ok_iff.mp hpush
        rfl
      rw [← harea] at ha ⊢
      exact loopRequests_asks hn fuel ha

theorem initializeWithin_evolves {t u : Thread} {fuel n : Nat} {c : Class}
    {result : Except Fault Unit} (ha : t.world.area.Linked)
    (hc : t.world.area.class? c.name = some c)
    (h : initializeWithin env fuel c n t = some (result, u)) :
    Evolves env t.world.area u.world.area :=
  Invariant.evolution_thread.mp ((Invariant.evolution_natives hn).initializeWithin_thread n ha hc
    (Invariant.evolution_thread.mpr (.refl env t.world.area)) h)

omit hn in
theorem claim_asks {c : Class} {t : Thread} {w : World} {i : Invocation}
    (ha : t.world.area.Linked) (hc : t.world.area.class? c.name = some c)
    (h : World.onArea (env.initStep c) t.world = (.ok (some i), w)) :
    t.world.area.Asks [i.target.className] (some w.area) ∧ i.Known env ∧
      Evolves env t.world.area w.area := by
  have hnext := World.onArea_eq h
  have hclaim : Evolves env t.world.area w.area := .step (.refl env _) (.of_initStep hc hnext)
  obtain ⟨k, -, hnew, hstarted, hk⟩ := env.initStep_some ha hc hnext
  have hname : i.target.className = k.name := Environment.initializer?_target hk
  rw [hname]
  exact ⟨.singleton hnew hstarted, Environment.initializer?_known hk, hclaim⟩

theorem initializeRequests_asks {fuel : Nat} {c : Class} (n : Nat) {t : Thread}
    (ha : t.world.area.Linked) (hc : t.world.area.class? c.name = some c) :
    t.world.area.Asks (initializeRequests env fuel c n t)
      ((initializeWithin env fuel c n t).map fun r => r.2.world.area) := by
  induction n generalizing t with
  | zero => exact .nil _ _
  | succ n ih =>
    rw [initializeRequests, initializeWithin]
    rcases hnext : World.onArea (env.initStep c) t.world with ⟨f | _ | i, w⟩
    · exact .nil _ _
    · exact .nil _ _
    · -- One initialiser is claimed and called, and only if it returns are there others.
      dsimp only
      obtain ⟨hasks, hknown, hclaim⟩ := claim_asks ha hc hnext
      have hw : w.area.Linked := hclaim.linked ha
      have hcall := callRequests_asks hn (t := { t with world := w }) fuel i hw
      rcases hexec : execute env fuel i { t with world := w } with _ | ⟨f | value, u⟩
      · rw [hexec] at hcall
        rw [List.append_nil]
        exact hasks.append ha hclaim hcall (by simp)
      · have hevolves : Evolves env w.area u.world.area := execute_evolves hn hw hknown hexec
        rw [hexec] at hcall
        rw [List.append_nil]
        refine hasks.append ha hclaim hcall fun c hc => ?_
        cases hc
        exact hevolves
      · have hevolves : Evolves env w.area u.world.area := execute_evolves hn hw hknown hexec
        have hu : u.world.area.Linked := hevolves.linked hw
        have hcu : u.world.area.class? c.name = some c :=
          hevolves.class? hw (hclaim.class? ha hc)
        have hrest : ∀ b, ((initializeWithin env fuel c n u).map fun r => r.2.world.area) = some b →
            Evolves env u.world.area b := by
          intro b hb
          obtain ⟨⟨result, v⟩, hwithin, rfl⟩ := Option.map_eq_some_iff.mp hb
          exact initializeWithin_evolves hn hu hcu hwithin
        rw [hexec] at hcall
        refine hasks.append ha hclaim ?_ fun b hb => hevolves.trans (hrest b hb)
        exact hcall.append hw hevolves (ih hu hcu) hrest

theorem run_evolves {t u : Thread} {fuel : Nat} {r : MemberRef} {arguments : List Value}
    {result : Except Fault Value} (ha : t.world.area.Linked)
    (h : run env fuel r arguments t = some (result, u)) :
    Evolves env t.world.area u.world.area :=
  Invariant.evolution_thread.mp ((Invariant.evolution_natives hn).run_thread ha
    (Invariant.evolution_thread.mpr (.refl env t.world.area)) h)

theorem runRequests_asks {t : Thread} (fuel : Nat) (r : MemberRef) (arguments : List Value)
    (ha : t.world.area.Linked) :
    t.world.area.Asks (runRequests env fuel r arguments t)
      ((run env fuel r arguments t).map fun r => r.2.world.area) := by
  unfold runRequests run
  rcases hload : World.onArea (env.loader.ensure r.className) t.world with ⟨f | c, w⟩
  · exact .nil _ _
  · have harea := World.onArea_eq hload
    have hopened : Evolves env t.world.area w.area := .step (.refl env _) (.of_ensure harea)
    have hw : w.area.Linked := hopened.linked ha
    have hc : w.area.class? c.name = some c := by
      have hclass := Loader.ensure_class? harea
      rwa [MethodArea.name_of_class? hclass]
    refine MethodArea.Asks.from_earlier ha hopened ?_
    have hinits : w.area.Asks (initializeRequests env fuel c _ { t with world := w })
        ((initializeClass env fuel c { t with world := w }).map fun r => r.2.world.area) :=
      initializeRequests_asks hn (t := { t with world := w }) (c.lineage.length + 1) hw hc
    dsimp only
    rcases hinit : initializeClass env fuel c { t with world := w } with _ | ⟨f | _, u⟩
    · rw [hinit] at hinits
      rw [List.append_nil]
      exact hinits
    · rw [hinit] at hinits
      rw [List.append_nil]
      exact hinits
    · have hevolves : Evolves env w.area u.world.area :=
        initializeWithin_evolves hn (t := { t with world := w }) hw hc hinit
      have hu : u.world.area.Linked := hevolves.linked hw
      rw [hinit] at hinits
      dsimp only
      cases hentry : entryCall env c r arguments with
      | error f =>
        rw [List.append_nil]
        exact hinits
      | ok i =>
        refine hinits.append hw hevolves (callRequests_asks hn fuel i hu) fun b hb => ?_
        obtain ⟨⟨result, v⟩, hexec, rfl⟩ := Option.map_eq_some_iff.mp hb
        exact execute_evolves hn hu (Invariant.entryCall_known hentry) hexec

/-! ### Tries of one instruction -/

/-- A frame that asked for an initialiser is back at the same instruction when it has run. -/
theorem back_from_request {f : Frame} {below : List Frame} {w : World} {base pc pc' fuel : Nat}
    {byte : UInt8} {i : Instruction} {j : Invocation} {s : Scene} {u : Thread}
    (hbase : base ≤ below.length) (hpc : f.code.bytes[pc]? = some byte)
    (hat : f.code.at? pc = some i)
    (hexec : env.execute (below.length + 1) i ⟨f, w⟩ = (.ok (.invoke j true), s))
    (hs : s.world.area.Linked) (hj : j.Known env)
    (hback : loopTo env base (below.length + 1) fuel ⟨f :: below, w⟩ pc = some (.running u pc')) :
    ∃ value w', u = ⟨(waiting s.frame i true).received value :: below, w'⟩ ∧ pc' = pc ∧
      Evolves env s.world.area w'.area := by
  cases fuel with
  | zero => cases hback
  | succ fuel =>
    obtain ⟨value, v, hexecute, hu, hpc'⟩ := (loopTo_eq_running_iff hbase hpc hat hexec).mp hback
    have hevolves : Evolves env s.world.area v.world.area := execute_evolves hn hs hj hexecute
    exact ⟨value, v.world, hu, hpc'.trans (address_of_at? hat), hevolves⟩

/-- The instruction at `pc` of the current frame is tried again `n` times, each time after an
initialiser that it asked for has returned. -/
inductive Retries (env : Environment) (base : Nat) : Nat → Thread → Nat → Prop where
  | done {t : Thread} {pc : Nat} : Retries env base 0 t pc
  | again {n fuel pc pc' : Nat} {t u : Thread} {j : Invocation}
    (hasks : request? env t pc = some j)
    (hback : loopTo env base t.depth fuel t pc = some (.running u pc'))
    (h : Retries env base n u pc') : Retries env base (n + 1) t pc

/-- Whether the instruction at `pc` is tried again `n` times, with `fuel` steps for each
initialiser. -/
def retriesWithin (env : Environment) (base fuel : Nat) : Nat → Thread → Nat → Bool
  | 0, _, _ => true
  | n + 1, t, pc =>
    (request? env t pc).isSome &&
      match loopTo env base t.depth fuel t pc with
      | some (.running u pc') => retriesWithin env base fuel n u pc'
      | _ => false

omit hn in
theorem retries_of_within {base : Nat} (fuel n : Nat) {t : Thread} {pc : Nat}
    (h : retriesWithin env base fuel n t pc = true) : Retries env base n t pc := by
  induction n generalizing t pc with
  | zero => exact .done
  | succ n ih =>
    rw [retriesWithin, Bool.and_eq_true, Option.isSome_iff_exists] at h
    obtain ⟨⟨j, hasks⟩, hrest⟩ := h
    split at hrest
    · rename_i u pc' hback
      exact .again hasks hback (ih hrest)
    · cases hrest

omit hn in
theorem received_waiting (f : Frame) (i : Instruction) (retry : Bool) (v : Value) :
    ((waiting f i retry).received v).code = f.code ∧
      ((waiting f i retry).received v).pool = f.pool := by
  unfold Frame.received
  split <;> exact ⟨rfl, rfl⟩

theorem Retries.starts {base n pc : Nat} {t : Thread} (h : Retries env base n t pc)
    {f : Frame} {below : List Frame} {i : Instruction} {find : Effect MethodArea ClassUse}
    {x : ClassUse} {b : MethodArea} (hframes : t.frames = f :: below) (hbase : base ≤ below.length)
    (hat : f.code.at? pc = some i) (hfind? : ClassUse.find? env f.pool i = some find)
    (ha : t.world.area.Linked) (hfind : find t.world.area = (.ok x, b)) :
    ∃ log : List String, log.length = n ∧ log.Nodup ∧
      ∀ m ∈ log, m ∈ x.subject.lineage.map Class.name ∧ ¬ t.world.area.Started m := by
  induction h generalizing f b with
  | done => exact ⟨[], rfl, List.nodup_nil, by simp⟩
  | @again n fuel pc pc' t u j hasks hback h ih =>
    obtain ⟨f', below', i', s, byte, hframes', hpc, hat', hexec⟩ := request?_eq_some hasks
    rw [hframes] at hframes'
    cases hframes'
    rw [hat] at hat'
    cases hat'
    obtain ⟨frames, w⟩ := t
    obtain rfl : frames = f :: below := hframes
    obtain ⟨find', x', b', k, hasked⟩ := ClassUse.exists_deferral ha hexec
    obtain rfl : find' = find := Option.some.inj (hasked.find?.symm.trans hfind?)
    have hsame := hasked.find
    rw [hfind] at hsame
    cases hsame
    have hs : s.world.area.Linked := hasked.claimed.linked (hasked.found.linked ha)
    obtain ⟨value, w', rfl, rfl, hrun⟩ := back_from_request hn hbase hpc hat hexec hs
      (Environment.initializer?_known hasked.initializer) hback
    rw [hasked.frame] at ih
    -- The same class is found again, so what is started from now on belongs to the same chain.
    have hlater : Evolves env b w'.area := hasked.claimed.trans hrun
    have hagain : find' w'.area = (.ok x, w'.area) := ClassUse.find_again hfind? ha hfind hlater
    obtain ⟨hcode, hpool⟩ := received_waiting f i true value
    obtain ⟨log, hlength, hnodup, hlog⟩ :=
      ih rfl (by rwa [hcode]) (by rwa [hpool]) (hrun.linked hs) hagain
    refine ⟨k.name :: log, by simp [hlength], List.nodup_cons.mpr ⟨?_, hnodup⟩, ?_⟩
    · exact fun hmem => (hlog _ hmem).2 (hrun.started hs hasked.started)
    · rw [List.forall_mem_cons]
      refine ⟨⟨List.mem_map_of_mem hasked.mem, fun hold => ?_⟩, fun m hm => ?_⟩
      · exact hasked.new (hasked.found.started ha hold)
      · obtain ⟨hmem, hnew⟩ := hlog m hm
        exact ⟨hmem, fun hold => hnew ((hasked.found.trans hlater).started ha hold)⟩

theorem Retries.length_le {base n pc : Nat} {t : Thread} (h : Retries env base n t pc)
    {f : Frame} {below : List Frame} {i : Instruction} {find : Effect MethodArea ClassUse}
    {x : ClassUse} {b : MethodArea} (hframes : t.frames = f :: below) (hbase : base ≤ below.length)
    (hat : f.code.at? pc = some i) (hfind? : ClassUse.find? env f.pool i = some find)
    (ha : t.world.area.Linked) (hfind : find t.world.area = (.ok x, b)) :
    n ≤ x.subject.lineage.length := by
  obtain ⟨log, rfl, hnodup, hlog⟩ := h.starts hn hframes hbase hat hfind? ha hfind
  have hlength := hnodup.length_le_of_subset fun m hm => (hlog m hm).1
  rwa [List.length_map] at hlength

omit hn in
/-- An instruction that does not find its class fails, so it is not tried again. -/
theorem Retries.eq_zero {base n pc : Nat} {t : Thread} (h : Retries env base n t pc)
    {f : Frame} {below : List Frame} {i : Instruction} {find : Effect MethodArea ClassUse}
    {fault : Fault} {b : MethodArea} (hframes : t.frames = f :: below)
    (hat : f.code.at? pc = some i) (hfind? : ClassUse.find? env f.pool i = some find)
    (ha : t.world.area.Linked) (hfind : find t.world.area = (.error fault, b)) : n = 0 := by
  cases h with
  | done => rfl
  | again hasks hback h =>
    obtain ⟨f', below', i', s, byte, hframes', hpc, hat', hexec⟩ := request?_eq_some hasks
    rw [hframes] at hframes'
    cases hframes'
    rw [hat] at hat'
    cases hat'
    obtain ⟨find', x', b', k, hasked⟩ := ClassUse.exists_deferral ha hexec
    obtain rfl : find' = find := Option.some.inj (hasked.find?.symm.trans hfind?)
    have hsame := hasked.find
    rw [hfind] at hsame
    cases hsame

end

end Thread

/-! ### Runs one after the other -/

namespace Runtime

/-- The runtimes that runs can lead to, each with the classes whose initialisers have been asked
for. Between runs the host may do to the classes what natives may. -/
inductive History (env : Environment) : List String → Runtime → Prop where
  | fresh : History env [] .empty
  | host {log : List String} {rt rt' : Runtime} (h : History env log rt)
    (hevolves : Evolves env rt.world.area rt'.world.area) : History env log rt'
  | run {log : List String} {rt rt' : Runtime} {fuel : Nat} {r : MemberRef}
    {arguments : List Value} {result : Except Fault Value} (h : History env log rt)
    (hrun : rt.run env fuel r arguments = some (result, rt')) :
    History env (log ++ Thread.runRequests env fuel r arguments ⟨[], rt.world⟩) rt'

variable {env : Environment} {log : List String} {rt : Runtime}

theorem History.asks (hn : env.NativesEvolve) (h : History env log rt) :
    Evolves env .empty rt.world.area ∧ MethodArea.empty.Asks log (some rt.world.area) := by
  induction h with
  | fresh => exact ⟨.refl env _, .nil _ _⟩
  | @host log rt rt' h hevolves ih =>
    obtain ⟨hsofar, hasks⟩ := ih
    have hasks' := hasks.append .empty hsofar (.nil _ (some rt'.world.area)) fun c hc => by
      cases hc
      exact hevolves
    rw [List.append_nil] at hasks'
    exact ⟨hsofar.trans hevolves, hasks'⟩
  | @run log rt rt' fuel r arguments result h hrun ih =>
    obtain ⟨hsofar, hasks⟩ := ih
    have hlinked := hsofar.linked .empty
    obtain ⟨⟨result', u⟩, hthread, hrt'⟩ := Option.map_eq_some_iff.mp hrun
    cases hrt'
    have hevolves : Evolves env rt.world.area u.world.area :=
      Thread.run_evolves hn (t := ⟨[], rt.world⟩) hlinked hthread
    have hnext := Thread.runRequests_asks hn (t := ⟨[], rt.world⟩) fuel r arguments hlinked
    rw [hthread] at hnext
    refine ⟨hsofar.trans hevolves, hasks.append .empty hsofar hnext fun c hc => ?_⟩
    cases hc
    exact hevolves

/-- Over any number of runs on one runtime, the initialiser of a class is asked for at most once. In
every state of a run a class that has been started has all its superclasses started. An instruction
that needs a started class does its work only when the class and its superclasses have been started,
and it is put off at most as many times as there are classes in that chain. -/
theorem initialization_discipline (hn : env.NativesEvolve) (h : History env log rt) (r : MemberRef)
    (arguments : List Value) :
    (∀ fuel, (log ++ Thread.runRequests env fuel r arguments ⟨[], rt.world⟩).Nodup) ∧
    (∀ u, Thread.RunState env r arguments ⟨[], rt.world⟩ u → u.world.area.Orderly) ∧
    ∀ j t u pc f below i find, Thread.RunCall env r arguments ⟨[], rt.world⟩ j t →
      Thread.LoopState env j t u pc → u.frames = f :: below → f.code.at? pc = some i →
      ClassUse.find? env f.pool i = some find →
      ClassUse.Outcome env find ⟨f, u.world⟩ (env.execute u.depth i ⟨f, u.world⟩) ∧
      ∀ n, Thread.Retries env t.depth n u pc →
        (∀ fault b, find u.world.area = (.error fault, b) → n = 0) ∧
        (∀ x b, find u.world.area = (.ok x, b) → n ≤ x.subject.lineage.length) := by
  obtain ⟨hsofar, hasks⟩ := h.asks hn
  have hlinked := hsofar.linked .empty
  have hstate : ∀ u, Thread.RunState env r arguments ⟨[], rt.world⟩ u →
      Evolves env .empty u.world.area := fun u hu =>
    Invariant.evolution_thread.mp ((Invariant.evolution_natives hn).runState_thread .empty
      (Invariant.evolution_thread.mpr hsofar) hu)
  refine ⟨fun fuel => ?_, fun u hu => (hstate u hu).orderly .empty .empty, ?_⟩
  · have hnext := Thread.runRequests_asks hn (t := ⟨[], rt.world⟩) fuel r arguments hlinked
    refine (hasks.append .empty hsofar hnext fun c hc => ?_).nodup
    obtain ⟨⟨result, u⟩, hrun, rfl⟩ := Option.map_eq_some_iff.mp hc
    exact Thread.run_evolves hn (t := ⟨[], rt.world⟩) hlinked hrun
  · intro j t u pc f below i find hcall hloop hframes hat hfind?
    have hu : u.world.area.Linked := (hstate u (.looping hcall hloop)).linked .empty
    have hbase : t.depth ≤ below.length := by
      obtain ⟨top, callers, habove⟩ := hloop.above.frames
      rw [hframes] at habove
      obtain ⟨-, rfl⟩ := List.cons.inj habove
      simp [Thread.depth]
    refine ⟨ClassUse.execute_outcome (s := ⟨f, u.world⟩) hfind? hu _, fun n hretries => ⟨?_, ?_⟩⟩
    · exact fun fault b hfind => hretries.eq_zero hframes hat hfind? hu hfind
    · exact fun x b hfind => hretries.length_le hn hframes hbase hat hfind? hu hfind

/-! ### A chain of two classes -/

def chainFile (name superName : String) (methods : List Method) : ClassFile where
  minor := 0
  major := 52
  pool := ⟨#[none, some (.utf8 "D" none), some (.classRef 1), some (.utf8 "()V" none),
    some (.utf8 "m" none), some (.utf8 "Code" none), some (.nameAndType 4 3),
    some (.methodref 2 6), some (.utf8 "<clinit>" none), some (.utf8 name none),
    some (.classRef 9), some (.utf8 superName none), some (.classRef 11)]⟩
  flags := 0x21
  thisClass := 10
  superClass := if superName = "" then 0 else 12
  interfaces := []
  fields := []
  methods := methods
  attributes := []
  name := name
  superName := superName

def chainMethod (index : UInt16) (name : String) (code : Bytes) : Method :=
  ⟨8, index, 3, [Thread.sampleBody 0 0 code], name, "()V"⟩

/-- `A.m` calls `D.m`. So does the initialiser of `D`, whose superclass `C` has an initialiser as
well. -/
def chainEnvironment : Environment where
  loader := ⟨fun name =>
    if name = "A" then .ok (chainFile "A" "" [chainMethod 4 "m" [0xB8, 0, 7, 0xB1]])
    else if name = "C" then .ok (chainFile "C" "" [chainMethod 8 "<clinit>" [0xB1]])
    else if name = "D" then .ok (chainFile "D" "C"
      [chainMethod 8 "<clinit>" [0xB8, 0, 7, 0xB1], chainMethod 4 "m" [0xB1]])
    else .error (classNotFound name), 4⟩
  natives := .standard
  maxDepth := 5
  observed := false

def chainEntry : MemberRef := ⟨"A", "m", "()V"⟩

theorem chain_history : ∃ rt, History chainEnvironment ["C", "D"] rt := by
  have hlog : Thread.runRequests chainEnvironment 20 chainEntry [] ⟨[], .empty⟩ = ["C", "D"] := by
    decide +kernel
  have hends : (Runtime.empty.run chainEnvironment 20 chainEntry []).isSome = true := by
    decide +kernel
  obtain ⟨⟨result, rt⟩, hrun⟩ := Option.isSome_iff_exists.mp hends
  have hhistory := History.run .fresh hrun
  exact ⟨rt, hlog ▸ hhistory⟩

-- The call of `D.m` is put off once for `C` and once for `D`.
theorem chain_retried :
    ∃ j t u f i find x b, Thread.RunCall chainEnvironment chainEntry [] ⟨[], .empty⟩ j t ∧
      Thread.LoopState chainEnvironment j t u 0 ∧ u.frames = [f] ∧ f.code.at? 0 = some i ∧
      ClassUse.find? chainEnvironment f.pool i = some find ∧ find u.world.area = (.ok x, b) ∧
      x.subject.lineage.length = 2 ∧ Thread.Retries chainEnvironment t.depth 2 u 0 := by
  refine ⟨_, _, _, _, _, _, _, _, @Thread.RunCall.entry _ _ _ _ _ _ 3 _ _ rfl rfl rfl,
    .start rfl rfl, rfl, rfl, rfl, rfl, rfl, ?_⟩
  exact Thread.retries_of_within 9 2 (by decide +kernel)

theorem initialization_discipline_chain :
    chainEnvironment.NativesEvolve ∧ (∃ rt, History chainEnvironment ["C", "D"] rt ∧
      ∀ fuel, (["C", "D"] ++
        Thread.runRequests chainEnvironment fuel chainEntry [] ⟨[], rt.world⟩).Nodup) ∧
    ∃ base u, Thread.Retries chainEnvironment base 2 u 0 ∧
      ∀ n, Thread.Retries chainEnvironment base n u 0 → n ≤ 2 := by
  have hn : chainEnvironment.NativesEvolve := Environment.nativesEvolve_standard rfl
  refine ⟨hn, ?_, ?_⟩
  · obtain ⟨rt, hhistory⟩ := chain_history
    have hdiscipline := initialization_discipline hn hhistory chainEntry []
    exact ⟨rt, hhistory, hdiscipline.1⟩
  · obtain ⟨j, t, u, f, i, find, x, b, hcall, hloop, hframes, hat, hfind?, hfind, hlength,
      hretries⟩ := chain_retried
    have hdiscipline := initialization_discipline hn .fresh chainEntry []
    have huse := hdiscipline.2.2 j t u 0 f [] i find hcall hloop hframes hat hfind?
    refine ⟨t.depth, u, hretries, fun n hagain => ?_⟩
    rw [← hlength]
    exact (huse.2 n hagain).2 x b hfind

end Runtime

end Jvm
