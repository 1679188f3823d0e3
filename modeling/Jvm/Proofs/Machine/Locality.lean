import Jvm.Proofs.Machine.Contents
import Jvm.Proofs.Machine.Transparency

/-!
# Instructions are local in the operand stack

An instruction that succeeds would have done the same with other values below those on its stack: it
takes the same step, leaves these values where they are, and does the same to locals, classes, heap
and canonical strings. Only the record of stores into locals tells the two apart, since it notes how
many values were on the stack.
-/

namespace Jvm

/-- The frame with more values at the bottom of its stack. -/
def Frame.above (f : Frame) (low : List Value) : Frame := { f with stack := f.stack ++ low }

def Scene.above (s : Scene) (low : List Value) : Scene := { s with frame := s.frame.above low }

/-- The record of a store with `n` more values on the stack. -/
def Store.deeper (n : Nat) (r : Store) : Store := { r with stackDepth := r.stackDepth + n }

/-- The world with the records of new stores, in front of the old ones, taken `n` values deeper. -/
def World.deeper (n : Nat) (new old : List Store) (w : World) : World :=
  { w with stores := new.map (Store.deeper n) ++ old }

/-- The scene with more values at the bottom of the stack from the beginning, when `new` are the
stores since then. -/
def Scene.lift (low : List Value) (new old : List Store) (s : Scene) : Scene :=
  ⟨s.frame.above low, s.world.deeper low.length new old⟩

namespace Exec

/-- What `m` does when it succeeds it also does with more values at the bottom of the stack. -/
def Local {α : Type} (m : Exec α) : Prop :=
  ∀ low old new s t a, s.world.stores = new ++ old → m s = (.ok a, t) →
    ∃ new', t.world.stores = new' ++ old ∧ m (s.lift low new old) = (.ok a, t.lift low new' old)

namespace Local

variable {α β : Type} {m : Exec α}

/-- What leaves the scene alone, and does not look at the stack or at the stores. -/
theorem of_same (hsame : ∀ s, (m s).2 = s)
    (hlift : ∀ low new old s, m (s.lift low new old) = ((m s).1, s.lift low new old)) :
    Local m := by
  intro low old new s t a hs hm
  have hst := hsame s
  rw [hm] at hst
  obtain rfl : t = s := hst
  refine ⟨new, hs, ?_⟩
  rw [hlift, hm]

theorem bind {k : α → Exec β} (hm : Local m) (hk : ∀ s a t, m s = (.ok a, t) → Local (k a)) :
    Local (m >>= k) := by
  intro low old new s u b hs h
  obtain ⟨a, t, hst, htu⟩ := Effect.bind_eq_ok.mp h
  obtain ⟨new₁, ht, hlift⟩ := hm low old new s t a hs hst
  obtain ⟨new₂, hu, hlift'⟩ := hk s a t hst low old new₁ t u b ht htu
  exact ⟨new₂, hu, Effect.bind_eq_ok.mpr ⟨a, _, hlift, hlift'⟩⟩

theorem pop : Local (Scene.onFrame Frame.pop) := by
  rintro low old new ⟨f, w⟩ t a hs hm
  obtain ⟨cls, method, code, resumePc, slots, stack, serial, observed⟩ := f
  cases stack with
  | nil => cases hm
  | cons v rest =>
    cases hm
    exact ⟨new, hs, rfl⟩

theorem peek : Local (Scene.onFrame Frame.peek) := by
  rintro low old new ⟨f, w⟩ t a hs hm
  obtain ⟨cls, method, code, resumePc, slots, stack, serial, observed⟩ := f
  cases stack with
  | nil => cases hm
  | cons v rest =>
    cases hm
    exact ⟨new, hs, rfl⟩

theorem push (v : Value) : Local (push v) := by
  intro low old new s t a hs hm
  cases hm
  exact ⟨new, hs, rfl⟩

/-- The table of canonical strings does not depend on the stores. -/
theorem intern (content : String) : Local (Scene.onWorld (World.intern content)) := by
  rintro low old new ⟨f, w⟩ t a hs hm
  simp only [Scene.onWorld, Effect.zoom, World.intern] at hm ⊢
  have hlift : (Scene.lift low new old ⟨f, w⟩).world.strings = w.strings := rfl
  rw [hlift]
  cases hlookup : w.strings.lookup content with
  | some serial =>
    rw [hlookup] at hm
    cases hm
    exact ⟨new, hs, rfl⟩
  | none =>
    rw [hlookup] at hm
    cases hm
    exact ⟨new, hs, rfl⟩

theorem getLocal (index : Int) : Local (Scene.onFrame (Frame.getLocal index)) := by
  have hget : ∀ f : Frame, Frame.getLocal index f =
      (if index < 0 then .error (f.noSlot index)
        else (f.slots[index.toNat]?).elim (.error (f.noSlot index)) .ok, f) := by
    intro f
    unfold Frame.getLocal
    split
    · rfl
    · cases f.slots[index.toNat]? <;> rfl
  refine of_same (fun s => ?_) fun low new old s => ?_
  · rw [Scene.onFrame, Effect.zoom, hget]
  · rw [Scene.onFrame, Effect.zoom, Effect.zoom, hget, hget]
    rfl

theorem store (depth index : Nat) (v : Value) : Local (Scene.store depth index v) := by
  intro low old new s t a hs hm
  rw [Scene.store_eq] at hm
  split at hm
  · cases hm
  · rename_i hroom
    cases hm
    refine ⟨s.records depth index v ++ new, by simp [hs], ?_⟩
    have hlifted : ¬ (s.lift low new old).frame.slots.size < index + v.width := hroom
    have hdepth : (s.lift low new old).frame.stackDepth = s.frame.stackDepth + low.length := by
      simp [Scene.lift, Frame.above, Frame.stackDepth]
    have hrecords : (s.lift low new old).records depth index v =
        (s.records depth index v).map (Store.deeper low.length) := by
      unfold Scene.records
      rw [hdepth]
      cases hobserved : s.frame.observed with
      | true =>
        simp [Scene.lift, Frame.above, hobserved]
        rfl
      | false => simp [Scene.lift, Frame.above, hobserved]
    rw [Scene.store_eq, if_neg hlifted, hrecords]
    simp [Scene.lift, World.deeper]
    rfl

theorem writeStatic (c : Class) (r : MemberRef) (v : Value) : Local (writeStatic c r v) := by
  intro low old new s t a hs hm
  unfold Exec.writeStatic at hm ⊢
  have hset : (s.lift low new old).world.area.setStatic c r.name r.descriptor v =
      s.world.area.setStatic c r.name r.descriptor v := rfl
  rw [hset]
  split at hm
  · cases hm
    exact ⟨new, hs, rfl⟩
  · cases hm

theorem writeField (target : Reference) (key : MemberRef) (v : Value) (f : Fault) :
    Local (writeField target key v f) := by
  intro low old new s t a hs hm
  unfold Exec.writeField at hm ⊢
  have hset : (s.lift low new old).world.heap.setField? target key v =
      s.world.heap.setField? target key v := rfl
  rw [hset]
  split at hm
  · cases hm
    exact ⟨new, hs, rfl⟩
  · cases hm

theorem recover {e : Effect MethodArea α} {k : α → Exec β} {g : Fault → Exec β}
    (hk : ∀ a b c, e b = (.ok a, c) → Local (k a)) (hg : ∀ f b c, e b = (.error f, c) → Local (g f)) :
    Local (recover e k g) := by
  intro low old new s t b hs hm
  have hlift : ∀ r c, e s.world.area = (r, c) →
      Scene.onArea e (s.lift low new old) = (r, (s.withArea c).lift low new old) :=
    fun r c he => onArea_of_eq he
  rcases he : e s.world.area with ⟨f | a, c⟩
  · simp only [Exec.recover, onArea_of_eq he, hlift _ _ he] at hm ⊢
    exact hg f _ c he low old new (s.withArea c) t b hs hm
  · simp only [Exec.recover, onArea_of_eq he, hlift _ _ he] at hm ⊢
    exact hk a _ c he low old new (s.withArea c) t b hs hm

theorem conclude (ending : Step ⊕ Class) : Local (conclude ending) := by
  intro low old new s t a hs hm
  cases ending with
  | inl step =>
    cases hm
    exact ⟨new, hs, rfl⟩
  | inr c =>
    cases hm
    exact ⟨new, hs, rfl⟩

end Local

theorem Composed.isLocal {env : Environment} {depth : Nat} {α : Type} {P : α → Prop} {m : Exec α}
    (h : Composed env depth (fun _ => True) (fun _ => True) m P) : Local m := by
  induction h with
  | pure h => exact .of_same (fun _ => rfl) fun _ _ _ _ => rfl
  | ofExcept hok hraises => exact .of_same (fun _ => rfl) fun _ _ _ _ => rfl
  | mono h hPQ ih => exact ih
  | bind hm hk ihm ihk => exact ihm.bind fun s a t hst => ihk a (hm.answer hst)
  | @recover α β P Q e k g hraises hyields hk hg ihk ihg =>
    refine .recover (fun a b c he => ihk a ?_) fun f b c he => ihg f True.intro
    exact (hyields _ (.trivial env) b True.intro).2 a (by rw [he])
  | pool | currentClass | heap => exact .of_same (fun _ => rfl) fun _ _ _ _ => rfl
  | pop => exact .pop
  | peek => exact .peek
  | push hv => exact .push _
  | intern content hstrings => exact .intern content
  | getLocal index => exact .getLocal index
  | store index hv => exact .store _ _ _
  | readStatic c r => exact .of_same (fun _ => rfl) fun _ _ _ _ => rfl
  | writeStatic c r hv => exact .writeStatic _ _ _
  | writeField target key hv hf => exact .writeField _ _ _ _

end Exec

/-- An instruction that succeeds on a frame succeeds with the same step on the frame with any values
at the bottom of its stack. It leaves them there below what it left without them, and changes
locals, classes, heap and the table of canonical strings in the same way. The stores that it records
are the same, too, but for the number of values on the stack. -/
theorem Environment.execute_local (env : Environment) (depth : Nat) (i : Instruction)
    {s t : Scene} {step : Step} (h : env.execute depth i s = (.ok step, t)) (low : List Value) :
    ∃ new, t.world.stores = new ++ s.world.stores ∧
      env.execute depth i (s.above low) =
        (.ok step, ⟨t.frame.above low, t.world.deeper low.length new s.world.stores⟩) := by
  obtain ⟨m, hm, heq⟩ := Exec.execute_composed depth (.trivial env) i
  rw [heq] at h ⊢
  have hlocal := hm.isLocal.bind fun _ ending _ _ => Exec.Local.conclude ending
  exact hlocal low s.world.stores [] s t step rfl h

-- The call of `k` takes a `long` and an `int` and leaves the 2.
theorem sum_call :
    ∃ i call s, Thread.sumFrame.code.at? (3 : Nat) = some i ∧
      Thread.sumEnvironment.execute 1 i ⟨Thread.sumFrame, Thread.sumThread.world⟩ =
        (.ok (.invoke call false), s) ∧
      call.arguments = [.int 3, .long 1] ∧ s.frame.stack = [.int 2] :=
  ⟨_, _, _, rfl, rfl, rfl, rfl⟩

theorem execute_local_sum :
    ∃ i call s t, Thread.sumFrame.code.at? (3 : Nat) = some i ∧
      Thread.sumEnvironment.execute 1 i ⟨Thread.sumFrame, Thread.sumThread.world⟩ =
        (.ok (.invoke call false), s) ∧
      Thread.sumEnvironment.execute 1 i
          ⟨Thread.sumFrame.above [.null, .long 7], Thread.sumThread.world⟩ =
        (.ok (.invoke call false), t) ∧
      call.arguments = [.int 3, .long 1] ∧ t.frame.stack = [.int 2, .null, .long 7] := by
  obtain ⟨i, call, s, hat, hexec, hargs, hstack⟩ := sum_call
  obtain ⟨new, -, habove⟩ :=
    Thread.sumEnvironment.execute_local 1 i hexec [.null, .long 7]
  refine ⟨i, call, s, _, hat, hexec, habove, hargs, ?_⟩
  rw [Frame.above, hstack]
  rfl

end Jvm
