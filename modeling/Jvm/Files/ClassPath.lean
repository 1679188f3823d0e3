import Jvm.Files.Archive
import Jvm.Files.Snapshot
import Jvm.Machine.MethodArea
import Jvm.Text.Case

/-!
# Class paths

A class path is a list of directories and archives that are searched in order. Archives are read when
the path is opened; directories are looked at anew for each class.
-/

namespace Jvm

inductive ClassPathEntry where
  | directory (path : String)
  /-- An archive whose classes stand below a folder. -/
  | archive (path folder : String) (content : Archive)

namespace ClassPathEntry

def path : ClassPathEntry → String
  | directory p => p
  | archive p _ _ => p

/-- The bytes before the archive of a module file. -/
def moduleMark : Bytes := [0x4a, 0x4d, 0x01, 0x00]

/-- Opens a module file: a mark, then an archive with its classes in a folder of their own. -/
def openModule (path : String) (data : Bytes) : Except Fault ClassPathEntry :=
  inContext ("jmod " ++ path) do
    if data.take moduleMark.length ≠ moduleMark then .error (.plain "missing JM header")
    else match Archive.ofBytes (data.drop moduleMark.length) with
      | .error e => .error (.plain e.text)
      | .ok content => .ok (archive path "classes/" content)

def openArchive (path : String) (data : Bytes) : Except Fault ClassPathEntry :=
  match Archive.ofBytes data with
  | .error e => .error (.context ("class path " ++ path) (.plain e.text))
  | .ok content => .ok (archive path "" content)

/-- Opens an element by what it is: a directory, or a file by its extension. -/
def ofPath (s : Snapshot) (path : String) : Except Fault ClassPathEntry :=
  match s.find path with
  | .error e => .error (.context ("class path " ++ path) (e.during "stat" path))
  | .ok (.directory _) => .ok (directory path)
  | .ok (.file data) =>
    let extension := Text.lower (Path.extension path)
    if extension = ".jar" || extension = ".zip" then openArchive path data
    else if extension = ".jmod" then openModule path data
    else .error (.context ("class path " ++ path) (.plain "not a directory, jar, zip or jmod"))

/-- The bytes of a class in an element, if the element has them. -/
def read (s : Snapshot) (name : String) : ClassPathEntry → Except Fault (Option Bytes)
  | directory path =>
    let file := Path.join [path, name ++ ".class"]
    match s.content file with
    | .ok data => .ok (some data)
    | .error .notFound => .ok none
    | .error e => .error (e.reading file)
  | archive path folder content =>
    let memberName := folder ++ name ++ ".class"
    match content.member? memberName.toUTF8.toList with
    | none => .ok none
    | some member =>
      match content.content member with
      | .ok data => .ok (some data)
      | .error e => .error (.context (path ++ "!" ++ memberName) (.plain e.text))

def bound (s : Snapshot) : ClassPathEntry → Nat
  | directory _ => s.root.fileCount
  | archive _ _ content => content.members.length

end ClassPathEntry

/-- The elements of a class path, in the order in which they are searched. -/
structure ClassPath where
  entries : List ClassPathEntry

namespace ClassPath

def empty : ClassPath := ⟨[]⟩

/-- Opens the elements of a path. Empty elements are passed over, and the first that cannot be opened
is the failure. -/
def ofElements (s : Snapshot) (elements : List String) : Except Fault ClassPath := do
  let entries ← (elements.filter (· ≠ "")).mapM (ClassPathEntry.ofPath s)
  return ⟨entries⟩

/-- The elements, separated by colons. -/
def text (p : ClassPath) : String := ":".intercalate (p.entries.map ClassPathEntry.path)

/-- Searches elements for a class. The first that has it decides, whether its bytes are in order or
not. -/
def search (s : Snapshot) (name : String) : List ClassPathEntry → Except Fault ClassFile
  | [] => .error (classNotFound name)
  | entry :: rest =>
    match entry.read s name with
    | .error f => .error f
    | .ok none => search s name rest
    | .ok (some data) => inContext (name ++ " in " ++ entry.path) (ClassFile.parse data)

def load (p : ClassPath) (s : Snapshot) (name : String) : Except Fault ClassFile :=
  search s name p.entries

def loader (p : ClassPath) (s : Snapshot) : Loader where
  load := p.load s
  bound := (p.entries.map (ClassPathEntry.bound s)).foldl (· + ·) 0

end ClassPath

end Jvm
