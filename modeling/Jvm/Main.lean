import Jvm.Command.Execute
import Jvm.Command.Reader

/-!
# The program

Reads what the command line needs into a snapshot, carries the command out, and prints its outcome.
-/

namespace Jvm

def stepLimit : Nat := 1000000000000

/-- How many directories may stand inside each other on a class path. -/
def directoryLimit : Nat := 64

def addFileAt (files : Snapshot) (path : String) : IO Snapshot := do
  try
    let content ← IO.FS.readBinFile path
    return files.addFile path content.toList
  catch _ => return files

def addClassesBelow : Nat → Snapshot → String → IO Snapshot
  | 0, files, _ => return files
  | depth + 1, files, path => do
    let here := files.addDirectory path
    let entries ← (← IO.FS.realPath path).readDir
    entries.foldlM (fun files entry => do
      let inner := path ++ "/" ++ entry.fileName
      if ← entry.path.isDir then addClassesBelow depth files inner
      else if Path.extension inner = ".class" then addFileAt files inner
      else return files) here

def addSource (files : Snapshot) (path : String) : IO Snapshot := do
  try
    if ← (← IO.FS.realPath path).isDir then addClassesBelow directoryLimit files path
    else addFileAt files path
  catch _ => return files

def addParentOf (files : Snapshot) (path : String) : IO Snapshot := do
  try
    let parent := Path.directory path
    if ← (← IO.FS.realPath parent).isDir then return files.addDirectory parent else return files
  catch _ => return files

def gather (r : Command.Request) : IO Snapshot := do
  let start := Snapshot.empty (← IO.currentDir).toString
  let start := start.addDirectory "."
  let files ← (r.settingsFiles start.workingDirectory).foldlM addFileAt start
  let logs := (r.logFile? files).toList
  let files ← logs.foldlM addParentOf files
  (r.sources files ++ logs).foldlM addSource files

/-- Opens the log file of a request, so that it is there. -/
def openLog (files : Snapshot) (r : Command.Request) : IO Unit :=
  match r.logFile? files with
  | none => return
  | some path => try discard (IO.FS.Handle.mk path .append) catch _ => return

def printOutcome (outcome : Command.Outcome) : IO Unit := do
  let out ← IO.getStdout
  out.write ⟨outcome.output.toArray⟩
  out.flush
  match outcome.ending.line? with
  | some line => IO.eprintln line
  | none => return

def perform (r : Command.Request) : IO Command.Outcome := do
  let files ← gather r
  openLog files r
  return (r.perform files stepLimit).getD (.failed (.plain "step limit reached"))

end Jvm

def main (words : List String) : IO UInt32 := do
  let outcome ← match Jvm.Command.Request.ofWords Jvm.Command.standardReader words with
    | .error f => pure (Jvm.Command.Outcome.failed f)
    | .ok r => Jvm.perform r
  Jvm.printOutcome outcome
  return outcome.exitCode
