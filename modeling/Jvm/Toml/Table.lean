/-!
# TOML tables

The values of a TOML document, and how a table grows while the document is read. A key may be given
once. A table that has only been mentioned, as a part of a longer key, may still be given a header of
its own; which tables these are is kept in the draft.
-/

namespace Jvm.Toml

/-- A value of a document. Numbers with a fraction and dates are kept as they are written. -/
inductive Value where
  | string (value : String)
  | integer (value : Int)
  | boolean (value : Bool)
  | float (text : String)
  | date (text : String)
  | array (items : List Value)
  | table (entries : List (String × Value))
  /-- A list of tables that each have a header of their own. -/
  | tables (elements : List (List (String × Value)))
  deriving Repr, Inhabited

abbrev Table := List (String × Value)

namespace Table

def put (t : Table) (key : String) (v : Value) : Table :=
  match t with
  | [] => [(key, v)]
  | (k, old) :: rest => if k = key then (k, v) :: rest else (k, old) :: put rest key v

/-- The table at the end of a path of keys; of a list of tables the last counts. -/
def find? : Table → List String → Option Table
  | t, [] => some t
  | t, key :: rest =>
    match t.lookup key with
    | some (.table inner) => find? inner rest
    | some (.tables elements) => (elements.getLast?).bind fun inner => find? inner rest
    | _ => none

def putAt (t : Table) (key : String) (v : Value) : List String → Option Table
  | [] => some (t.put key v)
  | name :: rest =>
    match t.lookup name with
    | some (.table inner) => (putAt inner key v rest).map fun new => t.put name (.table new)
    | some (.tables elements) =>
      match elements.getLast? with
      | some inner =>
        (putAt inner key v rest).map fun new =>
          t.put name (.tables (elements.dropLast ++ [new]))
      | none => none
    | _ => none

end Table

structure Draft where
  root : Table
  /-- The paths of tables that have only been mentioned. -/
  mentioned : List (List String)
  /-- The paths of keys whose value is an array. -/
  arrays : List (List String)
  deriving Inhabited

namespace Draft

def empty : Draft := ⟨[], [], []⟩

def mark (d : Draft) (path : List String) : Draft := { d with mentioned := path :: d.mentioned }

def unmark (d : Draft) (path : List String) : Draft :=
  { d with mentioned := d.mentioned.filter (· ≠ path) }

def store (d : Draft) (context : List String) (key : String) (v : Value) : Option Draft :=
  (d.root.putAt key v context).map fun root => { d with root }

/-- The value of a key of the table at a path; fails when there is no such table. -/
def value? (d : Draft) (context : List String) (key : String) : Option (Option Value) :=
  (d.root.find? context).map fun t => t.lookup key

/-- Gives a key its value. A key that has one already can only take the place of a mentioned table:
an array replaces it, and anything else leaves it as it is. -/
def define (d : Draft) (context : List String) (key : String) (v : Value) : Option Draft := do
  let path := context ++ [key]
  match ← d.value? context key with
  | none => d.store context key v
  | some _ =>
    if !d.mentioned.contains path then none
    else if d.arrays.contains path then (d.unmark path).store context key v
    else some (d.unmark path)

/-- Enters a table on the way to a longer key, making it if it is missing. An array in its place is
dropped. -/
def mention (d : Draft) (path : List String) : Option Draft := do
  let context := path.dropLast
  let key := path.getLastD ""
  match ← d.value? context key with
  | none => (d.mark path).store context key (.table [])
  | some _ =>
    if d.arrays.contains path then (d.unmark path).store context key (.table [])
    else some (d.unmark path)

/-- Enters the tables above a header, making those that are missing. -/
def reach (d : Draft) (path : List String) : Option Draft := do
  let context := path.dropLast
  let key := path.getLastD ""
  match ← d.value? context key with
  | none => (d.mark path).store context key (.table [])
  | some (.table _) | some (.tables _) => some d
  | some _ => none

/-- All beginnings of a path that are not empty, the shortest first. -/
def beginnings (path : List String) : List (List String) :=
  (List.range path.length).map fun i => path.take (i + 1)

/-- One line that gives a key, below the table at `context`, its value. -/
def assign (d : Draft) (context path : List String) (v : Value) : Option Draft := do
  let d ← (beginnings path.dropLast).foldlM (fun d p => d.mention (context ++ p)) d
  let owner := context ++ path.dropLast
  let key := path.getLastD ""
  let whole := context ++ path
  match v with
  | .array _ =>
    let d := { d with arrays := whole :: d.arrays }
    d.define owner key v
  | .table _ =>
    match ← d.value? owner key with
    | none => d.store owner key v
    | some _ => none
  | _ =>
    let d ← d.define owner key v
    return { d with arrays := d.arrays.filter (· ≠ whole) }

def openTable (d : Draft) (path : List String) : Option Draft := do
  let d ← (beginnings path.dropLast).foldlM reach d
  let d ← d.define path.dropLast (path.getLastD "") (.table [])
  return { d with arrays := d.arrays.filter (· ≠ path) }

def openElement (d : Draft) (path : List String) : Option Draft := do
  let d ← (beginnings path.dropLast).foldlM reach d
  let context := path.dropLast
  let key := path.getLastD ""
  let d := { d with arrays := d.arrays.filter (· ≠ path) }
  match ← d.value? context key with
  | none => d.store context key (.tables [[]])
  | some (.tables elements) => d.store context key (.tables (elements ++ [[]]))
  | some _ => none

def inlineTable (entries : List (List String × Value)) : Option Table := do
  let d ← entries.foldlM (fun d (path, v) => d.assign [] path v) empty
  return d.root

end Draft

end Jvm.Toml
