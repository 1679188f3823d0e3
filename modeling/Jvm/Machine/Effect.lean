import Jvm.Fault

/-!
# Effects

A step of the machine reads and changes a state and may fail. What it changed before it failed stays
changed, so the state comes out of a failure too.
-/

namespace Jvm

/-- A computation on a state that may fail and keeps its changes when it does. -/
abbrev Effect (σ : Type) := ExceptT Fault (StateM σ)

namespace Effect

variable {σ τ α : Type}

/-- Fails, leaving the state as it is. -/
@[inline] def fail (f : Fault) : Effect σ α := fun s => (.error f, s)

/-- A computation that leaves the state as it is. -/
@[inline] def ofExcept (e : Except Fault α) : Effect σ α := fun s => (e, s)

@[inline] def read : Effect σ σ := fun s => (.ok s, s)

@[inline] def update (f : σ → σ) : Effect σ Unit := fun s => (.ok (), f s)

/-- Runs a computation on a part of the state. -/
@[inline] def zoom (part : τ → σ) (put : σ → τ → τ) (m : Effect σ α) : Effect τ α := fun t =>
  match m (part t) with
  | (r, s) => (r, put s t)

end Effect

end Jvm
