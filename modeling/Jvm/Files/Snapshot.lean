import Jvm.Bytes
import Jvm.Files.Path

/-!
# Snapshots of a file system

A tree of directories and files together with a working directory. Reading from a snapshot is a pure
function; a path is followed part by part, so that each part before the last has to be a directory
that exists.
-/

namespace Jvm

inductive FileError where
  | notFound
  | notDirectory
  | isDirectory
  | invalidName
  | nameTooLong
  deriving Repr, DecidableEq

def FileError.text : FileError → String
  | notFound => "no such file or directory"
  | notDirectory => "not a directory"
  | isDirectory => "is a directory"
  | invalidName => "invalid argument"
  | nameTooLong => "file name too long"

def FileError.during (operation path : String) (e : FileError) : Fault :=
  .context (operation ++ " " ++ path) (.plain e.text)

/-- A failure to read the file at a path. A directory can be opened, but not read. -/
def FileError.reading (path : String) (e : FileError) : Fault :=
  e.during (if e = .isDirectory then "read" else "open") path

inductive FileNode where
  | file (content : Bytes)
  | directory (entries : List (String × FileNode))
  deriving Repr, Inhabited

namespace FileNode

/-- The named entries of a directory; a file has none. -/
def entries : FileNode → List (String × FileNode)
  | file _ => []
  | directory es => es

/-- The longest name of an entry, in bytes. -/
def maxName : Nat := 255

/-- Follows the parts of a path from a node whose enclosing directories are `above`. -/
def walk : List FileNode → FileNode → List String → Except FileError FileNode
  | _, node, [] => .ok node
  | _, .file _, _ :: _ => .error .notDirectory
  | above, .directory es, part :: rest =>
    if part = "" || part = "." then walk above (.directory es) rest
    else if part = ".." then
      match above with
      | [] => walk [] (.directory es) rest
      | parent :: higher => walk higher parent rest
    else if maxName < part.utf8ByteSize then .error .nameTooLong
    else match es.lookup part with
      | none => .error .notFound
      | some child => walk (.directory es :: above) child rest

/-- Puts a node at the end of a path of names, with the directories on the way. -/
def insert (new : FileNode) : FileNode → List String → FileNode
  | _, [] => new
  | node, name :: rest =>
    let child := (node.entries.lookup name).getD (.directory [])
    .directory ((name, insert new child rest) :: node.entries.filter fun e => e.1 ≠ name)

/-- Makes the directories on a path of names, where they are missing. -/
def makeDirectory : FileNode → List String → FileNode
  | node, [] => node
  | node, name :: rest =>
    let child := (node.entries.lookup name).getD (.directory [])
    .directory ((name, makeDirectory child rest) :: node.entries.filter fun e => e.1 ≠ name)

mutual

def fileCount : FileNode → Nat
  | .file _ => 1
  | .directory es => entriesFileCount es

def entriesFileCount : List (String × FileNode) → Nat
  | [] => 0
  | (_, node) :: rest => node.fileCount + entriesFileCount rest

end

end FileNode

/-- A tree of files and the directory at which relative paths start. -/
structure Snapshot where
  root : FileNode
  workingDirectory : String
  deriving Inhabited

namespace Snapshot

def empty (workingDirectory : String) : Snapshot := ⟨.directory [], workingDirectory⟩

def names (s : Snapshot) (path : String) : List String :=
  ((Path.absolute s.workingDirectory path).splitOn "/").filter (· ≠ "")

def addFile (s : Snapshot) (path : String) (content : Bytes) : Snapshot :=
  { s with root := (FileNode.file content).insert s.root (s.names path) }

def addDirectory (s : Snapshot) (path : String) : Snapshot :=
  { s with root := s.root.makeDirectory (s.names path) }

def find (s : Snapshot) (path : String) : Except FileError FileNode :=
  if path.toList.contains '\x00' then .error .invalidName
  else if path = "" then .error .notFound
  else
    let whole := if Path.isAbsolute path then path else s.workingDirectory ++ "/" ++ path
    s.root.walk [] (whole.splitOn "/")

def content (s : Snapshot) (path : String) : Except FileError Bytes :=
  match s.find path with
  | .error e => .error e
  | .ok (.directory _) => .error .isDirectory
  | .ok (.file bytes) => .ok bytes

/-- The content of the file at a path, with a failure in words. -/
def read (s : Snapshot) (path : String) : Except Fault Bytes :=
  match s.content path with
  | .ok bytes => .ok bytes
  | .error e => .error (e.reading path)

/-- Makes sure that there is a file at a path to append to. Its directory has to exist. -/
def touch (s : Snapshot) (path : String) : Except Fault Snapshot :=
  match s.content path, s.find (Path.directory path) with
  | .ok _, _ => .ok s
  | .error .notFound, .ok (.directory _) =>
    if path = "" then .error (FileError.notFound.during "open" path) else .ok (s.addFile path [])
  | .error e, _ => .error (e.during "open" path)

end Snapshot

end Jvm
