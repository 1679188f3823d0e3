import Jvm.Machine.Thread

/-!
# Runtimes

A runtime is a world with the threads registered in it. Threads run one at a time, to completion, so
between runs none of them has a frame.
-/

namespace Jvm

/-- A world and its threads. -/
structure Runtime where
  world : World
  /-- The numbers of the registered threads. -/
  threads : List Nat
  /-- How many threads have been made. -/
  made : Nat

def mainDescriptor : String := "([Ljava/lang/String;)V"

namespace Runtime

def empty : Runtime := ⟨.empty, [], 0⟩

def newThread (rt : Runtime) : Nat × Runtime :=
  (rt.made, { rt with threads := rt.made :: rt.threads, made := rt.made + 1 })

def removeThread (rt : Runtime) (number : Nat) : Runtime :=
  { rt with threads := rt.threads.filter (· ≠ number) }

/-- Runs a static method on an idle thread. -/
def run (env : Environment) (fuel : Nat) (r : MemberRef) (arguments : List Value) (rt : Runtime) :
    Option (Except Fault Value × Runtime) :=
  (Thread.run env fuel r arguments ⟨[], rt.world⟩).map fun (result, t) =>
    (result, { rt with world := t.world })

/-- The arguments of an entry point: none, or the program's arguments in one array of canonical
strings. -/
def entryArguments (r : MemberRef) (arguments : List String) : Effect World (List Value) := do
  let d ← Effect.ofExcept (MethodDescriptor.parse r.descriptor)
  match d.parameters.map FieldType.text with
  | [] => return []
  | ["java.lang.String[]"] =>
    let strings ← World.internAll arguments
    let array ← World.newArray "Ljava/lang/String;" (strings.map Value.reference)
    return [.reference array]
  | _ =>
    Effect.fail (typeMismatch
      ("entry point " ++ r.text ++ " must take no parameters or a String[]"))

/-- Runs a static entry method on a thread of its own. -/
def runEntry (env : Environment) (fuel : Nat) (r : MemberRef) (arguments : List String)
    (rt : Runtime) : Option (Except Fault Value × Runtime) :=
  match entryArguments r arguments rt.world with
  | (.error f, world) => some (.error f, { rt with world })
  | (.ok values, world) =>
    let (number, rt) := { rt with world }.newThread
    (run env fuel r values rt).map fun (result, rt) => (result, rt.removeThread number)

def runMain (env : Environment) (fuel : Nat) (className : String) (arguments : List String)
    (rt : Runtime) : Option (Except Fault Value × Runtime) :=
  runEntry env fuel ⟨className, "main", mainDescriptor⟩ arguments rt

end Runtime

end Jvm
