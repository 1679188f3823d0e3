import Mathlib.Data.List.Induction
import Jvm.Proofs.Machine.CallingConvention
import Jvm.Proofs.Machine.Observation

/-!
# Wide values in locals

A `long` or a `double` takes two slots, the second of which is empty. The frame of a call is made so,
and a store of a wide value empties the slot behind it. A store into the second slot of a wide value
that is there already leaves the first slot as it is: only such a store separates the two, and the
value can still be loaded afterwards.
-/

namespace Jvm

/-! ### Slots after a store -/

section

variable {slots : Array Value} {index k : Nat} {v : Value}

theorem Value.width_of_isWide (h : v.isWide = true) : v.width = 2 := by
  rw [width, if_pos h]

theorem Value.width_pos (v : Value) : 0 < v.width := by
  unfold width
  split <;> omega

theorem FieldType.slots_eq_width {t : FieldType} (h : v.kind? = some t.kind) :
    t.slots = v.width := by
  obtain ⟨element, depth⟩ := t
  rw [Value.width, Value.isWide, h]
  cases depth with
  | zero => cases element <;> rfl
  | succ depth => simp [slots, kind, Kind.isWide]

namespace Frame

theorem storedSlots_self (hroom : index + v.width ≤ slots.size) :
    (storedSlots slots index v)[index]? = some v := by
  have hpos := v.width_pos
  have hindex : index < slots.size := by omega
  unfold storedSlots
  dsimp only
  split
  · rw [Array.getElem?_setIfInBounds_ne (Nat.succ_ne_self index), Array.getElem?_setIfInBounds_self,
      if_pos hindex]
  · rw [Array.getElem?_setIfInBounds_self, if_pos hindex]

theorem storedSlots_next (hwide : v.isWide = true) (hroom : index + v.width ≤ slots.size) :
    (storedSlots slots index v)[index + 1]? = some .none := by
  rw [Value.width_of_isWide hwide] at hroom
  have hnext : index + 1 < (slots.setIfInBounds index v).size := by
    rw [Array.size_setIfInBounds]
    omega
  unfold storedSlots
  dsimp only
  rw [if_pos hwide, Array.getElem?_setIfInBounds_self, if_pos hnext]

theorem storedSlots_other (hk : k ≠ index) (hnext : v.isWide = true → k ≠ index + 1) :
    (storedSlots slots index v)[k]? = slots[k]? := by
  unfold storedSlots
  dsimp only
  split
  · rename_i hwide
    rw [Array.getElem?_setIfInBounds_ne (hnext hwide).symm, Array.getElem?_setIfInBounds_ne hk.symm]
  · rw [Array.getElem?_setIfInBounds_ne hk.symm]

end Frame

end

namespace Frame

/-! ### The frame of a call -/

/-- Behind every wide value there is an empty slot. -/
def Paired (slots : Array Value) : Prop :=
  ∀ k v, slots[k]? = some v → v.isWide = true → slots[k + 1]? = some .none

/-- Slots that are filled below `slot`, wide values with their second slots, and empty from there
on. -/
structure Filled (slot : Nat) (slots : Array Value) : Prop where
  fits : slot ≤ slots.size
  below : ∀ k v, slots[k]? = some v → v.isWide = true →
    k + 2 ≤ slot ∧ slots[k + 1]? = some .none
  empty : ∀ k, slot ≤ k → k < slots.size → slots[k]? = some .none

theorem Filled.paired {slot : Nat} {slots : Array Value} (h : Filled slot slots) : Paired slots :=
  fun k v hv hwide => (h.below k v hv hwide).2

theorem Filled.replicate (size : Nat) : Filled 0 (Array.replicate size .none) where
  fits := Nat.zero_le _
  below k v hv hwide := by
    rw [Array.getElem?_replicate] at hv
    split at hv
    · cases hv
      cases hwide
    · cases hv
  empty k _ hk := by
    rw [Array.size_replicate] at hk
    rw [Array.getElem?_replicate, if_pos hk]

theorem Filled.set {slot : Nat} {slots : Array Value} {v : Value} (h : Filled slot slots)
    (hroom : slot + v.width ≤ slots.size) :
    Filled (slot + v.width) (slots.setIfInBounds slot v) := by
  have hpos := v.width_pos
  refine ⟨?_, fun k u hu hwide => ?_, fun k hle hk => ?_⟩
  · rw [Array.size_setIfInBounds]
    exact hroom
  · by_cases hk : k = slot
    · -- The new value itself: a wide one has an empty slot behind it.
      subst hk
      rw [Array.getElem?_setIfInBounds_self, if_pos (by omega)] at hu
      cases hu
      rw [Value.width_of_isWide hwide] at hroom ⊢
      refine ⟨le_rfl, ?_⟩
      rw [Array.getElem?_setIfInBounds_ne (Nat.succ_ne_self k).symm]
      exact h.empty (k + 1) (by omega) (by omega)
    · rw [Array.getElem?_setIfInBounds_ne (Ne.symm hk)] at hu
      obtain ⟨hle, hnext⟩ := h.below k u hu hwide
      refine ⟨by omega, ?_⟩
      rw [Array.getElem?_setIfInBounds_ne (by omega)]
      exact hnext
  · rw [Array.size_setIfInBounds] at hk
    rw [Array.getElem?_setIfInBounds_ne (by omega)]
    exact h.empty k (by omega) hk

theorem Filled.receiverSlots {receiver : Option Value} {size : Nat}
    (hnarrow : ∀ v, receiver = some v → v.isWide = false) (hroom : receiver.toList.length ≤ size) :
    Filled receiver.toList.length (receiverSlots receiver size) := by
  cases receiver with
  | none => exact .replicate size
  | some v =>
    have hwidth : v.width = 1 := by
      rw [Value.width, hnarrow v rfl]
      rfl
    have hset := (Filled.replicate size).set (v := v) (by simpa [hwidth] using hroom)
    rwa [hwidth] at hset

/-- Binding arguments of the right kinds keeps slots filled. -/
theorem Filled.bindArguments {name : String} {types : List FieldType} {values : List Value}
    (harguments : Arguments types values) {i slot : Nat} {slots out : Array Value}
    (h : Filled slot slots) (hbind : bindArguments name i slot types values slots = .ok out) :
    ∃ last, Filled last out := by
  induction harguments generalizing i slot slots with
  | nil =>
    cases hbind
    exact ⟨slot, h⟩
  | @cons t v types values hkind hrest ih =>
    rw [Frame.bindArguments] at hbind
    split at hbind
    · cases hbind
    · rename_i hroom
      rw [FieldType.slots_eq_width hkind] at hroom hbind
      exact ih (h.set (by omega)) hbind

theorem paired_of_make {r : MemberRef} {hasReceiver : Bool} {taken : List Value} {i : Invocation}
    {cls : Class} {method : Method} {serial : Nat} {observed : Bool} {f : Frame}
    (hconsumes : i.Consumes r hasReceiver taken)
    (hmake : make cls method i.receiver i.parameters i.arguments serial observed = .ok f) :
    Paired f.slots := by
  obtain ⟨code, slots, -, -, hroom, hbind, rfl⟩ := make_eq_ok hmake
  have hnarrow : ∀ v, i.receiver = some v → v.isWide = false := by
    intro v hv
    obtain ⟨target?, -, hreceiver⟩ := hconsumes.receiver
    rw [hreceiver] at hv
    obtain ⟨target, -, rfl⟩ := Option.map_eq_some_iff.mp hv
    rfl
  obtain ⟨last, hfilled⟩ :=
    (Filled.receiverSlots hnarrow hroom).bindArguments hconsumes.arguments hbind
  exact hfilled.paired

/-! ### Stores one after the other -/

def stored (f : Frame) (x : Nat × Value) : Frame := (setLocal x.1 x.2 f).2

def storing (f : Frame) (stores : List (Nat × Value)) : Frame := stores.foldl stored f

theorem storing_append (f : Frame) (first last : List (Nat × Value)) :
    f.storing (first ++ last) = (f.storing first).storing last :=
  List.foldl_append

theorem stored_slots (f : Frame) (index : Nat) (v : Value) :
    (f.stored (index, v)).slots =
      if f.slots.size < index + v.width then f.slots else storedSlots f.slots index v := by
  rw [stored, setLocal_eq]
  split <;> rfl

/-- A store that succeeds keeps the slots paired unless it goes into the slot behind a wide value. -/
theorem paired_stored {slots : Array Value} (h : Paired slots) {index : Nat} {v : Value}
    (hv : v ≠ .none) (hroom : index + v.width ≤ slots.size) :
    Paired (storedSlots slots index v) ↔
      ∀ k u, k + 1 = index → slots[k]? = some u → u.isWide = false := by
  have hself := storedSlots_self hroom
  constructor
  · intro hpaired k u hk hu
    by_contra hwide
    have hwide : u.isWide = true := by simpa using hwide
    -- The value in front has not changed, and the slot behind it is not empty any more.
    have hsame : (storedSlots slots index v)[k]? = some u := by
      rw [storedSlots_other (by omega) fun _ => by omega]
      exact hu
    have hnext := hpaired k u hsame hwide
    rw [hk, hself] at hnext
    exact hv (Option.some.inj hnext)
  · intro hfront k u hu hwide
    by_cases hk : k = index
    · subst hk
      rw [hself] at hu
      cases hu
      exact storedSlots_next hwide hroom
    · by_cases hbehind : v.isWide = true ∧ k = index + 1
      · obtain ⟨hvwide, rfl⟩ := hbehind
        rw [storedSlots_next hvwide hroom] at hu
        cases hu
        cases hwide
      · have hother : v.isWide = true → k ≠ index + 1 := fun hvwide heq => hbehind ⟨hvwide, heq⟩
        rw [storedSlots_other hk hother] at hu
        have hindex : k + 1 ≠ index := by
          intro heq
          rw [hfront k u heq hu] at hwide
          cases hwide
        by_cases hnext : v.isWide = true ∧ k + 1 = index + 1
        · omega
        · rw [storedSlots_other hindex fun hvwide heq => hnext ⟨hvwide, heq⟩]
          exact h k u hu hwide

/-- What is in the slot behind a wide value: nothing, or a value that was stored there while the wide
value was in its slot. -/
theorem behind_wide {f : Frame} (hf : Paired f.slots) (stores : List (Nat × Value)) {k : Nat}
    {v : Value} (hv : (f.storing stores).slots[k]? = some v) (hwide : v.isWide = true) :
    (f.storing stores).slots[k + 1]? = some .none ∨
      ∃ before w after, stores = before ++ (k + 1, w) :: after ∧
        (f.storing before).slots[k]? = some v ∧ (f.storing stores).slots[k + 1]? = some w := by
  induction stores using List.reverseRecOn generalizing k v with
  | nil => exact .inl (hf k v hv hwide)
  | append_singleton stores x ih =>
    obtain ⟨index, u⟩ := x
    have hslots : (f.storing (stores ++ [(index, u)])).slots = _ :=
      (congrArg Frame.slots (f.storing_append stores [(index, u)])).trans
        (stored_slots (f.storing stores) index u)
    -- What was there before the last store is still there.
    have hkept : (f.storing stores).slots[k]? = some v →
        (f.storing (stores ++ [(index, u)])).slots[k + 1]? = (f.storing stores).slots[k + 1]? →
        (f.storing (stores ++ [(index, u)])).slots[k + 1]? = some .none ∨
          ∃ before w after, stores ++ [(index, u)] = before ++ (k + 1, w) :: after ∧
            (f.storing before).slots[k]? = some v ∧
              (f.storing (stores ++ [(index, u)])).slots[k + 1]? = some w := by
      intro hbefore hnext
      rw [hnext]
      rcases ih hbefore hwide with hnone | ⟨before, w, after, rfl, hfirst, hw⟩
      · exact .inl hnone
      · exact .inr ⟨before, w, after ++ [(index, u)], by simp, hfirst, hw⟩
    by_cases hfull : (f.storing stores).slots.size < index + u.width
    · rw [if_pos hfull] at hslots
      rw [hslots] at hv
      exact hkept hv (by rw [hslots])
    · rw [if_neg hfull] at hslots
      have hroom : index + u.width ≤ (f.storing stores).slots.size := by omega
      rw [hslots] at hv
      by_cases hk : k = index
      · -- The wide value was stored last, and emptied the slot behind it.
        subst hk
        rw [storedSlots_self hroom] at hv
        cases hv
        rw [hslots]
        exact .inl (storedSlots_next hwide hroom)
      · by_cases hbehind : u.isWide = true ∧ k = index + 1
        · obtain ⟨huwide, rfl⟩ := hbehind
          rw [storedSlots_next huwide hroom] at hv
          cases hv
          cases hwide
        · rw [storedSlots_other hk fun huwide heq => hbehind ⟨huwide, heq⟩] at hv
          by_cases hindex : k + 1 = index
          · subst hindex
            refine .inr ⟨stores, u, [], rfl, hv, ?_⟩
            rw [hslots]
            exact storedSlots_self hroom
          · refine hkept hv ?_
            rw [hslots]
            exact storedSlots_other hindex fun _ => by omega

theorem getLocalKind_of_slot {f : Frame} {k : Nat} {v : Value} (hv : f.slots[k]? = some v) :
    getLocalKind k v.kind? f = (.ok v, f) := by
  have hget : getLocal k f = (.ok v, f) := by
    rw [getLocal, if_neg (Int.not_lt.mpr (Int.natCast_nonneg k))]
    simp only [Int.toNat_natCast, hv]
  rw [getLocalKind, Effect.bind_apply, hget]
  simp only [Effect.ofExcept, Value.expect_of_kind]

end Frame

/-! ### Store instructions -/

/-- An instruction that stores makes one store of a value, or none. -/
theorem Environment.execute_stored (env : Environment) (depth : Nat) {i : Instruction}
    (hi : i.opcode.stores = true) (s : Scene) :
    ∃ stores : List (Nat × Value), stores.length ≤ 1 ∧ (∀ x ∈ stores, x.2 ≠ .none) ∧
      (env.execute depth i s).2.frame.slots = (s.frame.storing stores).slots := by
  generalize hresult : env.execute depth i s = result
  have houtcome := env.execute_store depth hi s
  rw [hresult] at houtcome
  cases houtcome with
  | failed hworld hslots => exact ⟨[], Nat.zero_le _, nofun, hslots⟩
  | @stored v r t hrecord hvalue hroom hworld hslots =>
    refine ⟨[(i.index.toNat, v)], Nat.le_refl _, by simpa using hvalue, ?_⟩
    have hstored := Frame.stored_slots s.frame i.index.toNat v
    rw [if_neg (by omega)] at hstored
    have happlied := Store.applied_eq s.frame.slots r
    rw [hrecord] at hslots happlied
    exact hslots.trans (happlied.trans hstored.symm)

/-- Let a frame be made for the call that an instruction asks for, and let values be stored in its
locals in any order. At the beginning every wide value has an empty slot behind it. Later it still
has a slot behind it and can be loaded; that slot is empty, or has a value that was stored there
while the wide value was in front of it. As long as there are only empty slots behind wide values, it
is exactly the stores behind a wide value that end this. -/
theorem wide_locals {env : Environment} {depth : Nat} {i : Instruction} {s t : Scene}
    {call : Invocation} {cls : Class} {method : Method} {serial : Nat} {observed : Bool} {f : Frame}
    (hcall : i.opcode ∈ Opcode.calls) (hexec : env.execute depth i s = (.ok (.invoke call false), t))
    (hmake : Frame.make cls method call.receiver call.parameters call.arguments serial observed =
      .ok f) :
    Frame.Paired f.slots ∧
    (∀ stores k v, (f.storing stores).slots[k]? = some v → v.isWide = true →
      k + 1 < (f.storing stores).slots.size ∧
      Frame.getLocalKind k v.kind? (f.storing stores) = (.ok v, f.storing stores) ∧
      ((f.storing stores).slots[k + 1]? = some .none ∨
        ∃ before w after, stores = before ++ (k + 1, w) :: after ∧
          (f.storing before).slots[k]? = some v ∧ (f.storing stores).slots[k + 1]? = some w)) ∧
    (∀ stores index v g, Frame.Paired (f.storing stores).slots → v ≠ .none →
      Frame.setLocal (index : Nat) v (f.storing stores) = (.ok (), g) →
        (Frame.Paired g.slots ↔
          ∀ k u, k + 1 = index → (f.storing stores).slots[k]? = some u → u.isWide = false)) ∧
    ∀ depth (i : Instruction) (s : Scene), i.opcode.stores = true →
      ∃ stores : List (Nat × Value), stores.length ≤ 1 ∧ (∀ x ∈ stores, x.2 ≠ .none) ∧
        (env.execute depth i s).2.frame.slots = (s.frame.storing stores).slots := by
  obtain ⟨r, taken, -, -, hconsumes⟩ := Environment.execute_operands hcall hexec
  have hpaired := Frame.paired_of_make hconsumes hmake
  refine ⟨hpaired, ?_, ?_, fun depth i s hi => env.execute_stored depth hi s⟩
  · intro stores k v hv hwide
    have hbehind := Frame.behind_wide hpaired stores hv hwide
    refine ⟨?_, Frame.getLocalKind_of_slot hv, hbehind⟩
    rcases hbehind with hnone | ⟨-, w, -, -, -, hw⟩
    · exact (Array.getElem?_eq_some_iff.mp hnone).1
    · exact (Array.getElem?_eq_some_iff.mp hw).1
  · intro stores index v g hbefore hv hset
    rw [Frame.setLocal_eq] at hset
    split at hset
    · cases hset
    · rename_i hfull
      cases hset
      exact Frame.paired_stored hbefore hv (Nat.le_of_not_lt hfull)

/-! ### A store behind a wide value -/

/-- A class whose method `m` stores an `int` behind its `long` argument and returns the argument. Its
method `run` calls `m` with 1. -/
def halvesFile : ClassFile where
  minor := 0
  major := 52
  pool := ⟨#[none, some (.utf8 "A" none), some (.classRef 1), some (.utf8 "()J" none),
    some (.utf8 "(J)J" none), some (.utf8 "Code" none), some (.utf8 "run" none),
    some (.utf8 "m" none), some (.nameAndType 7 4), some (.methodref 2 8)]⟩
  flags := 0x21
  thisClass := 2
  superClass := 0
  interfaces := []
  fields := []
  methods := [
    ⟨9, 6, 3, [Thread.sampleBody 2 0 [0x0A, 0xB8, 0, 9, 0xAD]], "run", "()J"⟩,
    ⟨9, 7, 4, [Thread.sampleBody 2 2 [0x08, 0x3C, 0x1E, 0xAD]], "m", "(J)J"⟩]
  attributes := []
  name := "A"

def halvesEnvironment : Environment := ⟨⟨fun _ => .ok halvesFile, 1⟩, .standard, 3, false⟩

/-- The frame of `run` at the call of `m`, when its class has been started. -/
def halvesScene : Scene where
  frame :=
    { cls := ⟨halvesFile, []⟩
      method := halvesFile.methods[0]
      code := .make 2 0 [0x0A, 0xB8, 0, 9, 0xAD] [] []
      resumePc := 0
      slots := #[]
      stack := [.long 1]
      serial := 0
      observed := false }
  world := { World.empty with area := ⟨[⟨⟨halvesFile, []⟩, [], true⟩]⟩, calls := 1 }

theorem halves_call :
    ∃ i t call cls method f, halvesScene.frame.code.at? (1 : Nat) = some i ∧
      i.opcode = .invokestatic ∧
      halvesEnvironment.execute 1 i halvesScene = (.ok (.invoke call false), t) ∧
      call.callee = .body cls method ∧
      Frame.make cls method call.receiver call.parameters call.arguments 1 false = .ok f ∧
      f.slots = #[.long 1, .none] ∧ (f.storing [(1, .int 5)]).slots = #[.long 1, .int 5] :=
  ⟨_, _, _, _, _, _, rfl, rfl, rfl, rfl, rfl, rfl, rfl⟩

-- The `int` is stored behind the `long`, which can still be loaded.
theorem wide_locals_halves :
    ∃ i t call cls method f, i.opcode ∈ Opcode.calls ∧
      halvesEnvironment.execute 1 i halvesScene = (.ok (.invoke call false), t) ∧
      Frame.make cls method call.receiver call.parameters call.arguments 1 false = .ok f ∧
      Frame.Paired f.slots ∧
      Frame.setLocal (1 : Nat) (.int 5) f = (.ok (), f.storing [(1, .int 5)]) ∧
      ¬ Frame.Paired (f.storing [(1, .int 5)]).slots ∧
      (Frame.getLocalKind (0 : Nat) (some .long) (f.storing [(1, .int 5)])).1 = .ok (.long 1) := by
  obtain ⟨i, t, call, cls, method, f, -, hop, hexec, -, hmake, hslots, hstored⟩ := halves_call
  have hcall : i.opcode ∈ Opcode.calls := by
    rw [hop]
    decide
  have hset : Frame.setLocal (1 : Nat) (.int 5) f = (.ok (), f.storing [(1, .int 5)]) := by
    show _ = (_, (Frame.setLocal (1 : Nat) (.int 5) f).2)
    rw [Frame.setLocal_eq, hslots]
    rfl
  have hfirst : f.slots[0]? = some (.long 1) := by rw [hslots]; rfl
  have hlast : (f.storing [(1, .int 5)]).slots[0]? = some (.long 1) := by rw [hstored]; rfl
  obtain ⟨hpaired, hstores, hends, -⟩ := wide_locals hcall hexec hmake
  refine ⟨i, t, call, cls, method, f, hcall, hexec, hmake, hpaired, hset, fun hlater => ?_, ?_⟩
  · have hnarrow := (hends [] 1 (.int 5) _ hpaired nofun hset).mp hlater 0 (.long 1) rfl hfirst
    cases hnarrow
  · exact congrArg Prod.fst (hstores [(1, .int 5)] 0 (.long 1) hlast rfl).2.1

/-- The `long` argument of `m` is still in its slot and is loaded after an `int` has taken the slot
behind it, and `run` returns it. -/
theorem overwritten_half_loads :
    (∃ i t call cls method f, i.opcode ∈ Opcode.calls ∧
      halvesEnvironment.execute 1 i halvesScene = (.ok (.invoke call false), t) ∧
      call.callee = .body cls method ∧
      Frame.make cls method call.receiver call.parameters call.arguments 1 false = .ok f ∧
      (f.storing [(1, .int 5)]).slots = #[.long 1, .int 5] ∧
      ¬ Frame.Paired (f.storing [(1, .int 5)]).slots ∧
      Frame.getLocalKind (0 : Nat) (some .long) (f.storing [(1, .int 5)]) =
        (.ok (.long 1), f.storing [(1, .int 5)])) ∧
    ∃ u, Thread.run halvesEnvironment 9 ⟨"A", "run", "()J"⟩ [] ⟨[], .empty⟩ =
      some (.ok (.long 1), u) := by
  refine ⟨?_, _, rfl⟩
  obtain ⟨i, t, call, cls, method, f, -, hop, hexec, hcallee, hmake, -, hslots⟩ := halves_call
  refine ⟨i, t, call, cls, method, f, ?_, hexec, hcallee, hmake, hslots, fun hpaired => ?_, ?_⟩
  · rw [hop]
    decide
  · have hbehind := hpaired 0 (.long 1) (by rw [hslots]; rfl) rfl
    rw [hslots] at hbehind
    cases hbehind
  · exact Frame.getLocalKind_of_slot (v := .long 1) (by rw [hslots]; rfl)

end Jvm
