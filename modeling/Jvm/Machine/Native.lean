import Jvm.Machine.World

/-!
# Native methods

Methods that the machine implements itself, by class, name and descriptor. An instance method finds
its receiver in front of its arguments, and a `void` method returns no value.
-/

namespace Jvm

/-- Where a native method is called from. -/
structure CallSite where
  /-- The number of frames of the calling thread. -/
  depth : Nat
  /-- The label of the calling frame. -/
  caller : Option String

/-- A method that the machine implements. -/
abbrev Native := CallSite → List Value → Effect World Value

abbrev NativeTable := List (MemberRef × Native)

def NativeTable.find? (t : NativeTable) (r : MemberRef) : Option Native := t.lookup r

namespace Native

def noop : Native := fun _ _ => return .none

/-- Answers null, as there are no class objects to hand out. -/
def getClass : Native := fun _ arguments =>
  match arguments with
  | [] | .null :: _ => Effect.fail (nullReference "getClass on null")
  | _ => return .null

/-- Answers the identity hash of an instance, and 0 for anything else. -/
def hashCode : Native := fun _ arguments =>
  match arguments with
  | [] | .null :: _ => Effect.fail (nullReference "hashCode on null")
  | .reference r :: _ => return .int (Heap.identityHash r)
  | _ => return .int 0

def fileDescriptorName : String := "java/io/FileDescriptor"

/-- Makes the standard descriptors, from number `fd` on, and puts them into the static fields that
the class declares. -/
def standardDescriptors (c : Class) : Nat → List String → Effect World Unit
  | _, [] => return ()
  | fd, field :: rest => do
    let descriptor := "L" ++ fileDescriptorName ++ ";"
    if (c.file.field? field descriptor).isSome then
      let r ← World.newInstance c
      Effect.update fun w =>
        match w.heap.setField? r ⟨fileDescriptorName, "fd", "I"⟩ (.int (Int32.ofNat fd)) with
        | some heap => { w with heap }
        | none => w
      let w ← Effect.read
      match w.area.setStatic c field descriptor (.reference r) with
      | .ok area => Effect.update fun w => { w with area }
      | .error f => Effect.fail f
    standardDescriptors c (fd + 1) rest

/-- Initialises the class of file descriptors: `in`, `out` and `err` become 0, 1 and 2. -/
def fileDescriptorInit : Native := fun _ _ => do
  let w ← Effect.read
  match w.area.class? fileDescriptorName with
  | none => Effect.fail (classNotFound fileDescriptorName)
  | some c =>
    standardDescriptors c 0 ["in", "out", "err"]
    return .none

end Native

/-- The natives that the core platform classes need. -/
def NativeTable.standard : NativeTable :=
  [(⟨objectName, "registerNatives", "()V"⟩, Native.noop),
    (⟨"java/lang/System", "registerNatives", "()V"⟩, Native.noop),
    (⟨Native.fileDescriptorName, "initIDs", "()V"⟩, Native.noop),
    (⟨"java/io/FileOutputStream", "initIDs", "()V"⟩, Native.noop),
    (⟨"sun/misc/Unsafe", "registerNatives", "()V"⟩, Native.noop),
    (⟨"jdk/internal/misc/Unsafe", "registerNatives", "()V"⟩, Native.noop),
    (⟨objectName, "getClass", "()Ljava/lang/Class;"⟩, Native.getClass),
    (⟨objectName, "hashCode", "()I"⟩, Native.hashCode),
    (⟨Native.fileDescriptorName, "<clinit>", "()V"⟩, Native.fileDescriptorInit)]

end Jvm
