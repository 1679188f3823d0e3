import Jvm.Files.Snapshot
import Jvm.Settings.Basic
import Jvm.Text.Case
import Jvm.Toml.Reader

/-!
# Settings files

Settings are read from a TOML document. Its keys are known by their names, in any letter case; others
are passed over. A known key whose value has the wrong type makes the file unreadable.
-/

namespace Jvm.Settings

/-! ### From a table -/

/-- The name among `names` that a key stands for: the key itself, or the first that differs from it in
letter case only. -/
def nameOf? (names : List String) (key : String) : Option String :=
  if names.contains key then some key else names.find? (Text.sameFolded · key)

def text? : Toml.Value → Option String
  | .string s => some s
  | _ => none

def integer? : Toml.Value → Option Int
  | .integer n => some n
  | _ => none

def texts? : Toml.Value → Option (List String)
  | .array items => items.mapM text?
  | _ => none

def setRuntime (s : Settings) (key : String) (v : Toml.Value) : Option Settings :=
  match nameOf? ["max-depth", "entry-method", "entry-descriptor"] key with
  | some "max-depth" => (integer? v).map fun n => { s with maxDepth := n }
  | some "entry-method" => (text? v).map fun t => { s with entryMethod := t }
  | some "entry-descriptor" => (text? v).map fun t => { s with entryDescriptor := t }
  | _ => some s

def setLog (s : Settings) (key : String) (v : Toml.Value) : Option Settings :=
  match nameOf? ["verbosity", "path"] key with
  | some "verbosity" => (integer? v).map fun n => { s with verbosity := n }
  | some "path" => (text? v).map fun t => { s with logFile := t }
  | _ => some s

def setSection (set : Settings → String → Toml.Value → Option Settings) (s : Settings) :
    Toml.Value → Option Settings
  | .table entries => entries.foldlM (fun s (key, v) => set s key v) s
  | _ => none

def set (s : Settings) (key : String) (v : Toml.Value) : Option Settings :=
  match nameOf? ["classpath", "java-home", "library-path", "runtime", "log"] key with
  | some "classpath" => (texts? v).map fun ts => { s with classPath := ts }
  | some "java-home" => (text? v).map fun t => { s with javaHome := t }
  | some "library-path" => (texts? v).map fun ts => { s with libraryPath := ts }
  | some "runtime" => setSection setRuntime s v
  | some "log" => setSection setLog s v
  | _ => some s

def ofTable (t : Toml.Table) : Option Settings :=
  t.foldlM (fun s (key, v) => set s key v) ({} : Settings)

/-! ### From files -/

def fileName : String := "jedy.toml"

def load (files : Snapshot) (path : String) : Except Fault Settings := do
  let data ← inContext ("cannot read " ++ path) (files.read path)
  match (Toml.parse data).bind ofTable with
  | none => .error (.plain ("parse error in " ++ path))
  | some s =>
    let directory := Path.absolute files.workingDirectory (Path.directory path)
    return { s with directory }.withDefaults

/-- A directory and those above it, up to the root. -/
def ancestors (directory : String) : List String :=
  let names := (directory.splitOn "/").filter (· ≠ "")
  (List.range (names.length + 1)).map fun i =>
    "/" ++ "/".intercalate (names.take (names.length - i))

/-- The settings in the nearest settings file, from a directory upwards; the standard ones where there
is none. -/
def find (files : Snapshot) (start : String) : Except Fault Settings :=
  let candidates := (ancestors (Path.absolute files.workingDirectory start)).map fun directory =>
    Path.join [directory, fileName]
  match candidates.find? fun path => (files.find path).isOk with
  | some path => load files path
  | none => .ok standard

end Jvm.Settings
