import Jvm.Machine.MethodArea

/-!
# Resolution

Symbolic references are resolved against the loaded classes; interfaces that have not been loaded
yet are loaded on the way, and a failure to load one is the answer. Searches through interfaces
remember the names they have visited, so they also end when interfaces form a cycle.
-/

namespace Jvm

def Loader.ensureAll (l : Loader) : List String → Effect MethodArea (List Class)
  | [] => return []
  | name :: rest => do
    let c ← l.ensure name
    let cs ← l.ensureAll rest
    return c :: cs

def methodNotFound (text : String) : Fault := .of .resolution .methodNotFound text

/-! ### Methods -/

/-- The interfaces that a class and its superclasses name directly, each once. -/
def Class.directInterfaces (c : Class) : List String :=
  (c.lineage.flatMap fun k => k.file.interfaceNames).eraseDups

/-- The nearest declaration in the superclass chain; failing that, the one declaration among the
directly named interfaces of the chain. -/
def Loader.resolveInterfaceMethod (l : Loader) (c : Class) (name descriptor : String) :
    Effect MethodArea (Class × Method) :=
  match c.resolveMethod? name descriptor with
  | some found => return found
  | none => do
    let interfaces ← l.ensureAll c.directInterfaces
    let declaring := interfaces.filterMap fun i =>
      (i.file.method? name descriptor).map fun m => (i, m)
    let text := c.name ++ "." ++ name ++ descriptor
    match declaring with
    | [] => Effect.fail (methodNotFound text)
    | [found] => return found
    | _ =>
      let names := " ".intercalate (declaring.map fun d => d.1.name)
      Effect.fail
        (.of .resolution .ambiguousInterfaceMethod (text ++ " declared by [" ++ names ++ "]"))

/-! ### Fields -/

/-- The result of a search: what was found, and the names visited. -/
abbrev Search (α : Type) := Option α × List String

/-- Searches the interfaces of a class in order by `search`. -/
def Loader.searchInterfaces {α : Type} (l : Loader)
    (search : Class → List String → Effect MethodArea (Search α)) :
    List String → List String → Effect MethodArea (Search α)
  | [], visited => return (none, visited)
  | name :: rest, visited => do
    let i ← l.ensure name
    let (found, visited) ← search i visited
    match found with
    | some a => return (some a, visited)
    | none => l.searchInterfaces search rest visited

/-- Looks for a field in the class, then in its interfaces, then in its superclass. To run out of
fuel is a failure, so that no answer depends on how much there was. -/
def Loader.searchField (l : Loader) (name descriptor : String) :
    Nat → Class → List String → Effect MethodArea (Search (Class × Field))
  | 0, c, _ => Effect.fail (classNotFound c.name)
  | fuel + 1, c, visited =>
    if visited.contains c.name then return (none, visited)
    else
      match c.file.field? name descriptor with
      | some f => return (some (c, f), c.name :: visited)
      | none => do
        let (found, visited) ← l.searchInterfaces (l.searchField name descriptor fuel)
          c.file.interfaceNames (c.name :: visited)
        match found, c.super? with
        | some r, _ => return (some r, visited)
        | none, some parent => l.searchField name descriptor fuel parent visited
        | none, none => return (none, visited)

/-- More names than a search can visit: those loaded, those that can be, and the root class. -/
def Loader.searchFuel (l : Loader) (a : MethodArea) : Nat := a.classes.length + l.bound + 2

def Loader.resolveField (l : Loader) (c : Class) (name descriptor : String) :
    Effect MethodArea (Class × Field) := do
  let a ← Effect.read
  let (found, _) ← l.searchField name descriptor (l.searchFuel a) c []
  match found with
  | some r => return r
  | none =>
    Effect.fail (.of .resolution .fieldNotFound (c.name ++ "." ++ name ++ ":" ++ descriptor))

/-! ### Assignability -/

/-- Searches the classes of a superclass chain in order: each is either the target, or its
interfaces are searched by `search`. -/
def Loader.searchLineage (l : Loader) (target : String)
    (search : Class → List String → Effect MethodArea (Search Unit)) :
    List Class → List String → Effect MethodArea (Search Unit)
  | [], visited => return (none, visited)
  | k :: rest, visited =>
    if k.name = target then return (some (), visited)
    else if visited.contains k.name then l.searchLineage target search rest visited
    else do
      let (found, visited) ← l.searchInterfaces search k.file.interfaceNames (k.name :: visited)
      match found with
      | some _ => return (some (), visited)
      | none => l.searchLineage target search rest visited

/-- Looks for a class named `target` above a class. To run out of fuel is a failure here, too. -/
def Loader.searchSupertype (l : Loader) (target : String) :
    Nat → Class → List String → Effect MethodArea (Search Unit)
  | 0, c, _ => Effect.fail (classNotFound c.name)
  | fuel + 1, c, visited =>
    l.searchLineage target (l.searchSupertype target fuel) c.lineage visited

/-- Whether an instance of a class may be used where `target` is expected: `target` is the class, a
superclass, or an interface of one of them. -/
def Loader.isAssignable (l : Loader) (c : Class) (target : String) : Effect MethodArea Bool := do
  let a ← Effect.read
  let (found, _) ← l.searchSupertype target (l.searchFuel a) c []
  return found.isSome

end Jvm
