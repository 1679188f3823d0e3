import Jvm.Proofs.Machine.Completion
import Jvm.Proofs.Machine.Failures
import Jvm.Proofs.Machine.References
import Jvm.Proofs.Machine.Transparency

/-!
# Control stays on decoded instructions

Code is not checked before it runs: it may jump anywhere and run off its end. All the same, every
loop of an entry point is at an address of the current frame's code or at its end, executes only
what the sweep found at that address, and fails where it found nothing or where a jump leaves the
code. Whatever else a state is looked up for is there: a current frame, what references point at,
and a value in every slot of instances and classes.
-/

namespace Jvm

open Scene (onArea)

/-! ### Addresses -/

namespace Thread

/-- Where the frames of a move go on lies in their code or at its end. -/
def Move.InCode : Move → Prop
  | stay f pc _ => pc ≤ f.code.bytes.length
  | enter _ f _ => f.resumePc ≤ f.code.bytes.length
  | leave _ _ | abort _ _ _ => True

theorem Takes.inCode {env : Environment} {f : Frame} {below : List Frame} {w : World} {pc : Nat}
    {m : Move} (h : Takes env f below w pc m) : m.InCode := by
  cases h with
  | offEnd | unknown | fails => trivial
  | @follows byte i outcome s m hpc hat hexec hfollows =>
    have hcode : s.frame.code = f.code := by
      have hsame := env.code_execute (below.length + 1) i ⟨f, w⟩
      rwa [hexec] at hsame
    have hnext : i.next ≤ s.frame.code.bytes.length := by
      rw [hcode]
      exact (Code.inside_of_at? hat).2
    have haddress : i.address ≤ i.next := by
      unfold Instruction.next
      omega
    -- A caller waits at its instruction, to run it again, or behind it.
    have hwaiting : ∀ retry, (waiting s.frame i retry).resumePc ≤ s.frame.code.bytes.length := by
      intro retry
      unfold waiting
      dsimp only
      split <;> omega
    cases hfollows with
    | next => exact hnext
    | jump hlow hhigh =>
      unfold Move.InCode
      omega
    | native hcallee hrun =>
      simp only [Move.InCode, Frame.received_eq]
      exact hwaiting _
    | call hcallee hroom hmake => exact hwaiting _
    | badJump | ret | badNative | badCall => trivial

/-- A loop above `below` is at an address of the code of its current frame or at its end, and so are
the callers on the way to it. -/
def InCode (below : List Frame) (t : Thread) (pc : Nat) : Prop :=
  ∃ f callers, t.frames = f :: (callers ++ below) ∧ pc ≤ f.code.bytes.length ∧
    ∀ g ∈ callers, g.resumePc ≤ g.code.bytes.length

theorem InCode.step {env : Environment} {below : List Frame} {t u : Thread} {pc pc' : Nat}
    (h : InCode below t pc) (hstep : Thread.step env below.length t pc = .running u pc') :
    InCode below u pc' := by
  obtain ⟨f, callers, hframes, hpc, hcallers⟩ := h
  obtain ⟨frames, w⟩ := t
  obtain rfl : frames = f :: (callers ++ below) := hframes
  obtain ⟨m, htakes, hprogress⟩ := exists_takes env f (callers ++ below) w pc
  have hin := htakes.inCode
  rw [hprogress] at hstep
  cases m with
  | stay f' pc' w' =>
    cases hstep
    exact ⟨f', callers, rfl, hin, hcallers⟩
  | enter callee f' w' =>
    cases hstep
    exact ⟨callee, f' :: callers, rfl, Nat.zero_le _, List.forall_mem_cons.mpr ⟨hin, hcallers⟩⟩
  | abort f' fault w' => cases hstep
  | leave value w' =>
    cases callers with
    | nil =>
      rw [Move.progress, List.nil_append, returning_base] at hstep
      cases hstep
    | cons caller rest =>
      rw [Move.progress, List.cons_append, returning_caller (by simp)] at hstep
      cases hstep
      rw [List.forall_mem_cons] at hcallers
      refine ⟨_, rest, rfl, ?_, hcallers.2⟩
      rw [Frame.received_eq]
      exact hcallers.1

theorem LoopState.inCode {env : Environment} {i : Invocation} {t u : Thread} {pc : Nat}
    (h : LoopState env i t u pc) : InCode t.frames u pc := by
  induction h with
  | start hcallee hpush =>
    obtain ⟨-, f, -, rfl⟩ := push_eq_ok_iff.mp hpush
    exact ⟨f, [], rfl, Nat.zero_le _, nofun⟩
  | step h hstep ih => exact ih.step hstep

/-! ### Steps that fail -/

theorem Stray.step_eq {env : Environment} {base : Nat} {t : Thread} {pc : Nat} (h : t.Stray pc) :
    ∃ f u, step env base t pc = .finished (.error f) u ∧ IsStrayFault f := by
  obtain ⟨g, below, hframes, hlt, hat⟩ := h
  have hstep : step env base t pc =
      failed base g pc (Opcode.nameOfByte g.code.bytes[pc]) (.of .unknownInstruction
        .unknownInstruction (Opcode.nameOfByte g.code.bytes[pc])) t := by
    simp only [step, hframes, List.getElem?_eq_getElem hlt, hat]
  exact ⟨_, _, hstep, rfl, rfl⟩

/-- The instruction at `pc` of the current frame asks for a jump that leaves the code. -/
def JumpsOut (env : Environment) (t : Thread) (pc : Nat) : Prop :=
  ∃ f below i target s, t.frames = f :: below ∧ f.code.at? pc = some i ∧
    env.execute t.depth i ⟨f, t.world⟩ = (.ok (.jump target), s) ∧
    (target < 0 ∨ (f.code.bytes.length : Int) ≤ target)

theorem JumpsOut.step_eq {env : Environment} {base : Nat} {t : Thread} {pc : Nat}
    (h : t.JumpsOut env pc) :
    ∃ f u, step env base t pc = .finished (.error f) u ∧ f.kind = .index ∧
      f.cause? = some .invalidJumpTarget := by
  obtain ⟨g, below, i, target, s, hframes, hat, hexec, hout⟩ := h
  obtain ⟨byte, hbyte⟩ := Code.exists_byte_of_at? hat
  have hcode : s.frame.code = g.code := by
    have hsame := env.code_execute t.depth i ⟨g, t.world⟩
    rwa [hexec] at hsame
  rw [← hcode] at hout
  have hstep : step env base t pc =
      failed base s.frame i.address i.opcode.name (.of .index .invalidJumpTarget
        s!"{target} outside code of length {s.frame.code.bytes.length}")
        ⟨s.frame :: below, s.world⟩ := by
    simp only [step, hframes, hbyte, hat, hexec, follow, if_pos hout]
  exact ⟨_, _, hstep, rfl, rfl⟩

end Thread

/-! ### Look-ups -/

/-- What the instructions look up without a check is there: what references point at, a value in
every slot of an instance, and a value in every static field that an instruction of the current
frame resolves once the class of the field has been started. -/
structure Thread.Whole (env : Environment) (t : Thread) : Prop where
  references : t.Closed (0, 0)
  fields : ∀ i ∈ t.world.heap.instances, ∀ key slot, i.cls.instanceSlot? key = some slot →
    ∃ v, i.fields[slot]? = some v
  statics : ∀ f below, t.frames = f :: below → ∀ index decl r s u,
    Exec.resolveField env index true ⟨f, t.world⟩ = (.ok (decl, r), s) →
    onArea (env.initStep decl) s = (.ok none, u) →
    ∀ slot, decl.staticSlot? r.name r.descriptor = some slot →
      ∃ e v, u.world.area.entry? decl.name = some e ∧ e.cls = decl ∧ e.statics[slot]? = some v

theorem Exec.exists_static {env : Environment} {s t u : Scene} {index : UInt16} {decl : Class}
    {r : MemberRef} {slot : Nat} (hs : (Invariant.typed env).Scene .empty s)
    (hresolve : Exec.resolveField env index true s = (.ok (decl, r), t))
    (hstart : onArea (env.initStep decl) t = (.ok none, u))
    (hslot : decl.staticSlot? r.name r.descriptor = some slot) :
    ∃ e v, u.world.area.entry? decl.name = some e ∧ e.cls = decl ∧ e.statics[slot]? = some v := by
  have ht := ((Invariant.typed env).keeps_resolveField index true).apply hs hresolve
  have hlinked := ht.world.evolves.linked .empty
  -- The class that declares the field has been loaded.
  have hclass : t.world.area.class? decl.name = some decl := by
    rw [ClassUse.resolveField_eq] at hresolve
    have hanswer := congrArg Prod.fst hresolve
    have hareas := congrArg (fun x => x.2.world.area) hresolve
    have hfield : ClassUse.ofField env s.frame.pool index s.world.area =
        (.ok (decl, r), t.world.area) := Prod.ext hanswer hareas
    obtain ⟨c, f, a, -, hload, hfound, -⟩ := ClassUse.ofField_eq_ok.mp hfield
    have hensured := Loader.ensure_class? hload
    rw [← MethodArea.name_of_class? hensured] at hensured
    have ha := (env.loader.preserves_linked.ensure _).apply (hs.world.evolves.linked .empty) hload
    exact Loader.resolveField_class? ha hensured hfound
  have harea : u.world.area = (env.initStep decl t.world.area).2 :=
    congrArg (fun x => x.2.world.area) hstart.symm
  rw [harea]
  have hop : MethodArea.Operation env t.world.area (env.initStep decl t.world.area).2 :=
    .start hclass
  obtain ⟨e, he, hcls⟩ := MethodArea.class?_eq_some_iff.mp (hop.class? hlinked hclass)
  have htyped := (ht.world.holds.start hlinked hclass).statics _ e he
  rw [LoadedClass.Typed, hcls] at htyped
  obtain ⟨v, hv, -⟩ := getElem?_of_forall₂ htyped (Class.staticDescriptors_of_slot hslot)
  exact ⟨e, v, he, hcls, hv⟩

theorem Invariant.Thread.whole {env : Environment} {t : Jvm.Thread}
    (h : (Invariant.typed env).Thread .empty t) (hclosed : t.Closed (0, 0)) : t.Whole env where
  references := hclosed
  fields i hi key slot hslot := by
    obtain ⟨v, hv, -⟩ := getElem?_of_forall₂ (h.world.holds.fields i hi)
      (Class.instanceDescriptors_of_slot hslot)
    exact ⟨v, hv⟩
  statics f below hframes index decl r s u hresolve hstart slot hslot := by
    have hf : (Invariant.typed env).Frame f := h.frames f (by simp [hframes])
    exact Exec.exists_static ⟨hf, h.world⟩ hresolve hstart hslot

namespace Runtime

/-! ### Entry points one after the other -/

/-- The runtimes that entry points lead to, one after the other. -/
inductive Reached (env : Environment) : Runtime → Prop where
  | fresh : Reached env .empty
  | entry {rt rt' : Runtime} {fuel : Nat} {r : MemberRef} {arguments : List String}
    {result : Except Fault Value} (h : Reached env rt)
    (hrun : rt.runEntry env fuel r arguments = some (result, rt')) : Reached env rt'

theorem Reached.world {env : Environment} (hn : env.natives = .standard) {rt : Runtime}
    (h : Reached env rt) :
    (Invariant.typed env).World .empty rt.world ∧ rt.world.Closed (0, 0) := by
  induction h with
  | fresh => exact ⟨⟨.refl env _, Heap.Typed.empty⟩, World.closed_iff_holds.mpr (.empty _)⟩
  | entry h hrun ih =>
    obtain ⟨u, hu, hworld⟩ := EntryState.of_runEntry hrun
    rw [← hworld]
    exact ⟨(hu.kept hn ih.1).world, (hu.closed hn ih.2).world⟩

/-! ### Loops of an entry point -/

/-- The states of the loops of an entry point: of the initialisers of its class and of the entry
itself. -/
inductive EntryLoop (env : Environment) (r : MemberRef) (arguments : List String) (rt : Runtime) :
    Thread → Nat → Prop where
  | intro {values : List Value} {w : World} {i : Invocation} {u v : Thread} {pc : Nat}
    (hargs : entryArguments r arguments rt.world = (.ok values, w))
    (hcall : Thread.RunCall env r values ⟨[], w⟩ i u) (hloop : Thread.LoopState env i u v pc) :
    EntryLoop env r arguments rt v pc

theorem EntryLoop.entryState {env : Environment} {r : MemberRef} {arguments : List String}
    {rt : Runtime} {v : Thread} {pc : Nat} (h : EntryLoop env r arguments rt v pc) :
    EntryState env r arguments rt v := by
  obtain ⟨hargs, hcall, hloop⟩ := h
  exact .running hargs (.looping hcall hloop)

theorem EntryLoop.runEntry_eq {env : Environment} (hn : env.natives = .standard) {r : MemberRef}
    {arguments : List String} {rt : Runtime} (hrt : (Invariant.typed env).World .empty rt.world)
    {v : Thread} {pc : Nat} (h : EntryLoop env r arguments rt v pc) {P : Fault → Prop}
    (hfails : ∀ base, ∃ f u, Thread.step env base v pc = .finished (.error f) u ∧ P f) :
    ∃ fuel f rt', rt.runEntry env fuel r arguments = some (.error f, rt') ∧ P f := by
  obtain @⟨values, w, i, u, v, pc, hargs, hcall, hloop⟩ := h
  obtain ⟨f, t, hstep, hf⟩ := hfails u.depth
  have hlinked := (EntryState.kept hn hrt (.prepared hargs)).world.evolves.linked .empty
  obtain ⟨fuel, hrun⟩ := hcall.run_eq_of_step (Environment.nativesEvolve_standard hn) hloop hlinked
    hstep
  have hentry : ∃ rt', rt.runEntry env fuel r arguments = some (.error f, rt') := by
    simp only [runEntry, hargs, run, newThread, hrun, Option.map_some]
    exact ⟨_, rfl⟩
  obtain ⟨rt', hentry⟩ := hentry
  exact ⟨fuel, f, rt', hentry, hf⟩

/-! ### Control -/

/-- Whatever class files a library has, whatever entry points have been run before and whatever is
run now, every state of a loop has a current frame, is at an address of its code or at its end, and
executes what the sweep decoded at this very address; what it looks up besides is there. The entry
point fails with an unknown instruction exactly when a loop comes to an address of the code that the
sweep did not reach or that lies in the middle of an instruction, and it fails with an invalid jump
target when an instruction jumps out of the code. -/
theorem control_on_instructions (library : Library) (maxDepth : Nat) (observed : Bool)
    {rt : Runtime} (hrt : Reached (library.environment maxDepth observed) rt) (r : MemberRef)
    (arguments : List String) :
    (∀ v pc, EntryLoop (library.environment maxDepth observed) r arguments rt v pc →
      v.Whole (library.environment maxDepth observed) ∧
      ∃ f below, v.frames = f :: below ∧ pc ≤ f.code.bytes.length ∧
        (∀ i, f.code.at? pc = some i →
          i ∈ (Listing.sweep f.code.bytes).instructions ∧ i.address = pc ∧
            Instruction.decode? f.code.bytes pc = some i) ∧
        (v.Stray pc ↔ pc < f.code.bytes.length ∧
          ((∃ i ∈ (Listing.sweep f.code.bytes).instructions, i.address < pc ∧ pc < i.next) ∨
            ∃ stop ≤ pc, (Listing.sweep f.code.bytes).halt? = some stop ∧
              Instruction.decode? f.code.bytes stop = none))) ∧
    ((∃ fuel f rt', rt.runEntry (library.environment maxDepth observed) fuel r arguments =
          some (.error f, rt') ∧ f.kind = .unknownInstruction) ↔
      ∃ v pc, EntryLoop (library.environment maxDepth observed) r arguments rt v pc ∧ v.Stray pc) ∧
    ∀ v pc, EntryLoop (library.environment maxDepth observed) r arguments rt v pc →
      v.JumpsOut (library.environment maxDepth observed) pc →
      ∃ fuel f rt', rt.runEntry (library.environment maxDepth observed) fuel r arguments =
          some (.error f, rt') ∧ f.kind = .index ∧ f.cause? = some .invalidJumpTarget := by
  obtain ⟨hkept, hclosed⟩ := hrt.world rfl
  refine ⟨?_, ⟨?_, ?_⟩, ?_⟩
  · intro v pc hloop
    have hstate := hloop.entryState
    refine ⟨(hstate.kept rfl hkept).whole (hstate.closed rfl hclosed), ?_⟩
    obtain ⟨hargs, hcall, hloop⟩ := hloop
    obtain ⟨f, callers, hframes, hpc, -⟩ := hloop.inCode
    refine ⟨f, _, hframes, hpc, fun i hat => ?_, ?_⟩
    · rw [Code.at?_eq_sweep] at hat
      exact Listing.at?_sweep hat
    · constructor
      · rintro ⟨g, below, hframes', hlt, hnone⟩
        rw [hframes] at hframes'
        cases hframes'
        rw [Code.at?_eq_sweep] at hnone
        exact ⟨hlt, (Listing.at?_sweep_eq_none_iff hlt).mp hnone⟩
      · rintro ⟨hlt, houtside⟩
        refine ⟨f, _, hframes, hlt, ?_⟩
        rw [Code.at?_eq_sweep]
        exact (Listing.at?_sweep_eq_none_iff hlt).mpr houtside
  · -- Only an address without an instruction has a fault of this class.
    rintro ⟨fuel, f, rt', hentry, hkind⟩
    have hother : ¬ f.Sorted Thread.kinds library.Slotless := by
      rintro (⟨hmem, -⟩ | ⟨hformat, -⟩)
      · rw [hkind] at hmem
        revert hmem
        decide
      · rw [hkind] at hformat
        cases hformat
    rcases runEntry_eq_error hentry with ⟨w, hbad⟩ | ⟨values, w, u, hargs, hrun⟩
    · have hF := Fault.Sorted.family Thread.kinds library.Slotless
      have hraises := raises_entryArguments (hF.mono (by decide)) r arguments
      exact absurd (hraises.apply hbad) hother
    · rcases (Thread.Terms.of_library library maxDepth observed).run_error hrun with
        hsorted | ⟨-, i, t, v, pc, hcall, hloop, hstray⟩
      · exact absurd hsorted hother
      · exact ⟨v, pc, ⟨hargs, hcall, hloop⟩, hstray⟩
  · rintro ⟨v, pc, hloop, hstray⟩
    obtain ⟨fuel, f, rt', hentry, hfault⟩ :=
      hloop.runEntry_eq rfl hkept fun base => hstray.step_eq
    exact ⟨fuel, f, rt', hentry, hfault.1⟩
  · intro v pc hloop hjump
    exact hloop.runEntry_eq rfl hkept fun base => hjump.step_eq

/-- A class with a method `f` that jumps into the middle of its first instruction, and a method `g`
that jumps out of its code. -/
def jumps : Library :=
  [("A", [0xCA, 0xFE, 0xBA, 0xBE, 0, 0, 0, 52, 0, 7, 1, 0, 1, 0x41, 7, 0, 1,
    1, 0, 3, 0x28, 0x29, 0x56, 1, 0, 4, 0x43, 0x6F, 0x64, 0x65, 1, 0, 1, 0x66, 1, 0, 1, 0x67,
    0, 0x21, 0, 2, 0, 0, 0, 0, 0, 0, 0, 2,
    0, 8, 0, 5, 0, 3, 0, 1, 0, 4, 0, 0, 0, 16, 0, 0, 0, 0, 0, 0, 0, 4, 0xA7, 0, 1, 0xB1, 0, 0, 0, 0,
    0, 8, 0, 6, 0, 3, 0, 1, 0, 4, 0, 0, 0, 15, 0, 0, 0, 0, 0, 0, 0, 3, 0xA7, 0, 0x7F, 0, 0, 0, 0,
    0, 0])]

theorem jumps_stray :
    ∃ v, EntryLoop (jumps.environment 4 false) ⟨"A", "f", "()V"⟩ [] .empty v 1 ∧ v.Stray 1 :=
  ⟨_, .intro rfl (@Thread.RunCall.entry _ _ _ _ _ _ 1 _ _ rfl rfl rfl)
    (.step (.start rfl rfl) rfl), _, _, rfl, by decide, rfl⟩

theorem jumps_out :
    ∃ v, EntryLoop (jumps.environment 4 false) ⟨"A", "g", "()V"⟩ [] .empty v 0 ∧
      v.JumpsOut (jumps.environment 4 false) 0 :=
  ⟨_, .intro rfl (@Thread.RunCall.entry _ _ _ _ _ _ 1 _ _ rfl rfl rfl) (.start rfl rfl),
    _, _, _, _, _, rfl, rfl, rfl, by decide⟩

theorem control_on_instructions_jumps :
    Reached (jumps.environment 4 false) .empty ∧
    (∃ v, EntryLoop (jumps.environment 4 false) ⟨"A", "f", "()V"⟩ [] .empty v 1 ∧
      v.Whole (jumps.environment 4 false)) ∧
    (∃ fuel f rt, Runtime.empty.runEntry (jumps.environment 4 false) fuel ⟨"A", "f", "()V"⟩ [] =
        some (.error f, rt) ∧ f.kind = .unknownInstruction) ∧
    ∃ fuel f rt, Runtime.empty.runEntry (jumps.environment 4 false) fuel ⟨"A", "g", "()V"⟩ [] =
        some (.error f, rt) ∧ f.kind = .index ∧ f.cause? = some .invalidJumpTarget := by
  obtain ⟨v, hloop, hstray⟩ := jumps_stray
  obtain ⟨u, hjumping, hout⟩ := jumps_out
  obtain ⟨hstates, hunknown, -⟩ :=
    control_on_instructions jumps 4 false .fresh ⟨"A", "f", "()V"⟩ []
  obtain ⟨-, -, hjumps⟩ := control_on_instructions jumps 4 false .fresh ⟨"A", "g", "()V"⟩ []
  exact ⟨.fresh, ⟨v, hloop, (hstates v 1 hloop).1⟩, hunknown.mpr ⟨v, 1, hloop, hstray⟩,
    hjumps u 0 hjumping hout⟩

end Runtime

end Jvm
