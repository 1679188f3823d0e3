import Jvm.Proofs.Machine.Holding

/-!
# References point at what has been allocated

Instances and arrays are numbered in the order of their allocation, and none is ever given up. A
thread is closed when every reference in its frames, in the static fields of the loaded classes and
in the heap itself has a number below those handed out so far. Steps, calls and runs keep threads
closed.
-/

namespace Jvm

/-- A value that, if it points into the heap, points below the given numbers of instances and
arrays. -/
def Value.Within (n : Nat × Nat) : Value → Prop
  | .reference (.object k) => k < n.1
  | .reference (.array k) => k < n.2
  | _ => True

theorem Value.Unboxed.within {v : Value} (h : v.Unboxed) (n : Nat × Nat) : v.Within n := by
  unfold Within
  split
  · cases h
  · cases h
  · trivial

theorem Value.Within.mono {n n' : Nat × Nat} (hle : n ≤ n') (v : Value) (h : v.Within n) :
    v.Within n' := by
  obtain ⟨hinstances, harrays⟩ := hle
  unfold Within at h ⊢
  split at h
  · exact Nat.lt_of_lt_of_le h hinstances
  · exact Nat.lt_of_lt_of_le h harrays
  · trivial

/-- What an instruction makes by itself does not point into the heap, and what is allocated gets the
next number. -/
theorem Value.persistent_within : Persistent Within where
  mono hle v h := Within.mono hle v h
  plain n _ h := h.unboxed.within n
  object h := h
  array h := h

theorem Environment.upholds_within {env : Environment} (hn : env.natives = .standard) :
    env.Upholds Value.Within where
  persistent := Value.persistent_within
  initial n _ _ _ _ _ _ hv := (Class.unboxed_staticInitial hv).within n
  natives := Environment.nativesHold_standard Value.persistent_within hn

/-- No reference in the static fields and in the heap points at what is not there, and at least `n`
instances and arrays are there. -/
structure World.Closed (n : Nat × Nat) (w : World) : Prop where
  statics : w.area.All (Value.Within w.heap.extent)
  heap : w.heap.All (Value.Within w.heap.extent)
  grown : n ≤ w.heap.extent

theorem World.closed_iff_holds {n : Nat × Nat} {w : World} :
    w.Closed n ↔ w.Holds Value.Within n :=
  ⟨fun h => ⟨h.statics, h.heap, h.grown⟩, fun h => ⟨h.statics, h.heap, h.grown⟩⟩

/-- No reference in the frames, the static fields and the heap points at what is not there. -/
structure Thread.Closed (n : Nat × Nat) (t : Thread) : Prop where
  frames : ∀ f ∈ t.frames, f.All (Value.Within t.world.heap.extent)
  world : t.world.Closed n

theorem Thread.closed_iff_holds {n : Nat × Nat} {t : Thread} :
    t.Closed n ↔ t.Holds Value.Within n :=
  ⟨fun h => ⟨h.frames, World.closed_iff_holds.mp h.world⟩,
    fun h => ⟨h.frames, World.closed_iff_holds.mpr h.world⟩⟩

theorem Runtime.EntryState.closed {env : Environment} (hn : env.natives = .standard)
    {n : Nat × Nat} {r : MemberRef} {arguments : List String} {rt : Runtime} {u : Thread}
    (hrt : rt.world.Closed n) (h : EntryState env r arguments rt u) : u.Closed n :=
  Thread.closed_iff_holds.mpr <|
    h.holds (Environment.upholds_within hn) (World.closed_iff_holds.mp hrt)

end Jvm
