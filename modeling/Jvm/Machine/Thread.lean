import Jvm.Machine.Execution

/-!
# Threads

A thread runs one call stack to completion. A call with a body pushes a frame and goes on in the
same loop; the loop ends when the frame it started with returns, or with the first failure, which
takes every frame above the base off again. Programs need not end, so the loop takes fuel, and
`none` means that it ran out.
-/

namespace Jvm

/-- A call stack in the world. -/
structure Thread where
  /-- The active frames, the current one first. -/
  frames : List Frame
  world : World

namespace Thread

def depth (t : Thread) : Nat := t.frames.length

/-- Takes off every frame above the lowest `base`. -/
def unwind (t : Thread) (base : Nat) : Thread :=
  { t with frames := t.frames.drop (t.frames.length - base) }

def callSite (t : Thread) : CallSite := ⟨t.depth, t.frames.head?.map Frame.label⟩

def push (env : Environment) (cls : Class) (method : Method) (i : Invocation) (t : Thread) :
    Except Fault Thread :=
  if env.maxDepth ≤ t.depth then
    .error (.of .stackOverflow .stackOverflow s!"calling {i.target.text} at depth {t.depth}")
  else do
    let f ← Frame.make cls method i.receiver i.parameters i.arguments t.world.calls env.observed
    return { frames := f :: t.frames, world := { t.world with calls := t.world.calls + 1 } }

def callNative (run : Native) (i : Invocation) (t : Thread) : Except Fault Value × Thread :=
  match run t.callSite i.nativeArguments t.world with
  | (.ok v, world) => (.ok v, { t with world })
  | (.error f, world) => (.error (.context ("native " ++ i.target.text) f), { t with world })

/-- What comes of one step of the loop. -/
inductive Progress where
  /-- Go on at `pc` of the current frame. -/
  | running (thread : Thread) (pc : Nat)
  /-- The call is over. -/
  | finished (result : Except Fault Value) (thread : Thread)

/-- A fault at `pc` of a frame. -/
def located (f : Frame) (pc : Nat) (mnemonic : String) (fault : Fault) : Fault :=
  .context s!"{f.label} @{pc} {mnemonic}" fault

/-- Ends the loop with a failure at `pc` of a frame. -/
def failed (base : Nat) (f : Frame) (pc : Nat) (mnemonic : String) (fault : Fault) (t : Thread) :
    Progress :=
  .finished (.error (located f pc mnemonic fault)) (t.unwind base)

/-- Returns to the frame below, or ends the loop when the base is reached. -/
def returning (base : Nat) (value : Value) (below : List Frame) (world : World) : Progress :=
  match below with
  | [] => .finished (.ok value) ⟨[], world⟩
  | caller :: rest =>
    if rest.length < base then .finished (.ok value) ⟨caller :: rest, world⟩
    else .running ⟨caller.received value :: rest, world⟩ caller.resumePc

/-- A frame that waits for a call made by an instruction, and then goes on after the instruction or
executes it again. -/
def waiting (f : Frame) (i : Instruction) (retry : Bool) : Frame :=
  { f with resumePc := if retry then i.address else i.next }

def follow (env : Environment) (base : Nat) (i : Instruction) (f : Frame) (below : List Frame)
    (world : World) : Step → Progress
  | .next => .running ⟨f :: below, world⟩ i.next
  | .jump target =>
    if target < 0 ∨ (f.code.bytes.length : Int) ≤ target then
      failed base f i.address i.opcode.name
        (.of .index .invalidJumpTarget s!"{target} outside code of length {f.code.bytes.length}")
        ⟨f :: below, world⟩
    else .running ⟨f :: below, world⟩ target.toNat
  | .return_ value => returning base value below world
  | .invoke invocation retry =>
    let f := waiting f i retry
    let t : Thread := ⟨f :: below, world⟩
    match invocation.callee with
    | .native run _ =>
      match callNative run invocation t with
      | (.error fault, t) => failed base f i.address i.opcode.name fault t
      | (.ok value, t) => .running ⟨f.received value :: below, t.world⟩ f.resumePc
    | .body cls method =>
      match t.push env cls method invocation with
      | .error fault => failed base f i.address i.opcode.name fault t
      | .ok t => .running t 0

/-- One step of the loop: the instruction at `pc` of the current frame. Running off the end of the
code is a `void` return, and an address that the sweep did not reach cannot be executed. -/
def step (env : Environment) (base : Nat) (t : Thread) (pc : Nat) : Progress :=
  match t.frames with
  | [] => .finished (.ok .none) t
  | f :: below =>
    match f.code.bytes[pc]? with
    | none => returning base .none below t.world
    | some byte =>
      match f.code.at? pc with
      | none =>
        let mnemonic := Opcode.nameOfByte byte
        failed base f pc mnemonic (.of .unknownInstruction .unknownInstruction mnemonic) t
      | some i =>
        match env.execute t.depth i ⟨f, t.world⟩ with
        | (.error fault, s) =>
          failed base s.frame pc i.opcode.name fault ⟨s.frame :: below, s.world⟩
        | (.ok outcome, s) => follow env base i s.frame below s.world outcome

/-- Runs the loop until the frame above `base` returns or fails. -/
def loop (env : Environment) (base : Nat) :
    Nat → Thread → Nat → Option (Except Fault Value × Thread)
  | 0, _, _ => none
  | fuel + 1, t, pc =>
    match step env base t pc with
    | .running t pc => loop env base fuel t pc
    | .finished result t => some (result, t)

def execute (env : Environment) (fuel : Nat) (i : Invocation) (t : Thread) :
    Option (Except Fault Value × Thread) :=
  match i.callee with
  | .native run _ => some (callNative run i t)
  | .body cls method =>
    match t.push env cls method i with
    | .error f => some (.error f, t)
    | .ok pushed => loop env t.depth fuel pushed 0

/-- Runs at most `n` initialisers that a class still needs. -/
def initializeWithin (env : Environment) (fuel : Nat) (c : Class) :
    Nat → Thread → Option (Except Fault Unit × Thread)
  | 0, t => some (.ok (), t)
  | n + 1, t =>
    match World.onArea (env.initStep c) t.world with
    | (.error f, world) => some (.error f, { t with world })
    | (.ok none, world) => some (.ok (), { t with world })
    | (.ok (some i), world) =>
      match execute env fuel i { t with world } with
      | none => none
      | some (.error f, t) => some (.error f, t)
      | some (.ok _, t) => initializeWithin env fuel c n t

/-- Runs every initialiser that a class still needs, root first. Each one marks a class of the
chain, so there are at most as many as the chain is long. -/
def initializeClass (env : Environment) (fuel : Nat) (c : Class) (t : Thread) :
    Option (Except Fault Unit × Thread) :=
  initializeWithin env fuel c (c.lineage.length + 1) t

def entryCall (env : Environment) (c : Class) (r : MemberRef) (arguments : List Value) :
    Except Fault Invocation :=
  match c.file.method? r.name r.descriptor with
  | none => .error (methodNotFound r.text)
  | some m =>
    if !m.isStatic then
      .error (.of .resolution .incompatibleClassChange
        (r.className ++ "." ++ m.text ++ " is not static"))
    else do
      let d ← m.type
      env.bind c m none arguments d.parameters

def run (env : Environment) (fuel : Nat) (r : MemberRef) (arguments : List Value) (t : Thread) :
    Option (Except Fault Value × Thread) :=
  match World.onArea (env.loader.ensure r.className) t.world with
  | (.error f, world) => some (.error f, { t with world })
  | (.ok c, world) =>
    match initializeClass env fuel c { t with world } with
    | none => none
    | some (.error f, t) => some (.error f, t)
    | some (.ok (), t) =>
      match entryCall env c r arguments with
      | .error f => some (.error f, t)
      | .ok i => execute env fuel i t

end Thread

end Jvm
