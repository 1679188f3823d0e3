import Jvm.Command.Line
import Jvm.Files.ClassPath
import Jvm.Report.Format
import Jvm.Settings.Load

/-!
# Carrying out a command

A command reads from a snapshot of the file system and writes to an output. What it wrote before it
failed stays written.
-/

namespace Jvm.Command

inductive Ending where
  | success
  | failure (cause : Fault)
  /-- The log file cannot be opened. -/
  | logFailure (cause : Fault)
  deriving Repr, DecidableEq

def Ending.line? : Ending → Option String
  | success => none
  | failure cause => some ("error: " ++ cause.message)
  | logFailure cause => some ("log file error: " ++ cause.message)

/-- What a command leaves behind: its output, and how it ended. -/
structure Outcome where
  output : Bytes
  ending : Ending
  deriving Repr, DecidableEq

def Outcome.exitCode (o : Outcome) : UInt32 := if o.ending = .success then 0 else 1

/-- The outcome of a failure before there is output. -/
def Outcome.failed (cause : Fault) : Outcome := ⟨[], .failure cause⟩

def Outcome.ofEffect (e : Effect Bytes Unit) : Outcome :=
  match e [] with
  | (.ok (), output) => ⟨output, .success⟩
  | (.error cause, output) => ⟨output, .failure cause⟩

def write (r : Report) : Effect Bytes Unit := Effect.update (· ++ r.bytes)

/-! ### Reports -/

/-- Writes the report on a class file. The file is read before the format is looked at. -/
def dumpFile (files : Snapshot) (format path : String) : Effect Bytes Unit := do
  let c ← Effect.ofExcept (inContext "parse class file" do
    let data ← inContext "failed to open class file" (files.read path)
    ClassFile.parse data)
  let f ← Effect.ofExcept (ReportFormat.ofName format)
  let r ← Effect.ofExcept (inContext ("encode " ++ format) (c.report f))
  write r

def dumpFiles (files : Snapshot) (format : String) : List String → Effect Bytes Unit
  | [] => pure ()
  | path :: rest => do
    dumpFile files format path
    dumpFiles files format rest

/-! ### Programs -/

/-- Settings with what the command line says in their place. Paths of the command line start at the
working directory. -/
def RunOptions.apply (o : RunOptions) (workingDirectory : String) (s : Settings) : Settings :=
  let paths (list : String) := (Path.splitList list).map (Path.absolute workingDirectory)
  { s with
    classPath := (o.classPath?.map paths).getD s.classPath
    libraryPath := (o.libraryPath?.map paths).getD s.libraryPath
    javaHome := (o.javaHome?.map (Path.absolute workingDirectory)).getD s.javaHome
    maxDepth := o.maxDepth?.getD s.maxDepth }

/-- The elements of the class path of a run: the working directory where no others are given. -/
def elementsOf (s : Settings) : List String :=
  if s.classPathElements.isEmpty then ["."] else s.classPathElements

def printClass (c : ClassFile) : Effect Bytes Unit := do
  let r ← Effect.ofExcept (inContext "print class" (c.report .line))
  write r

/-- The environment of a program on a class path. A depth that is not positive counts as none. -/
def environment (files : Snapshot) (s : Settings) (path : ClassPath) : Environment where
  loader := path.loader files
  natives := NativeTable.standard
  maxDepth := if s.maxDepth ≤ 0 then defaultMaxDepth else s.maxDepth.toNat
  observed := false

/-- What is done before a program starts: the class path is opened, and the class printed if asked
for. -/
def prepare (files : Snapshot) (s : Settings) (print : Bool) (className : String) :
    Effect Bytes Environment := do
  let path ← Effect.ofExcept (ClassPath.ofElements files (elementsOf s))
  if print then
    let c ← Effect.ofExcept (path.load files className)
    printClass c
  return environment files s path

/-- Runs the entry method of a class and prints its result, if it has one. Gives `none` when the fuel
does not last. -/
def runProgram (files : Snapshot) (fuel : Nat) (s : Settings) (print : Bool) (className : String)
    (arguments : List String) : Option Outcome :=
  match prepare files s print className [] with
  | (.error f, output) => some ⟨output, .failure f⟩
  | (.ok env, output) =>
    let entry : MemberRef := ⟨className, s.entryMethod, s.entryDescriptor⟩
    match Runtime.runEntry env fuel entry arguments Runtime.empty with
    | none => none
    | some (.error f, _) => some ⟨output, .failure f⟩
    | some (.ok v, rt) =>
      let line := if v.isPresent then rt.world.heap.text v ++ "\n" else ""
      some ⟨output ++ line.toUTF8.toList, .success⟩

/-! ### Requests -/

def Request.settings (files : Snapshot) (r : Request) : Except Fault Settings :=
  if r.settingsFile = "" then Settings.find files "." else Settings.load files r.settingsFile

/-- The log file of a request; empty when there is none. The command line goes before the settings. -/
def Request.logPath (r : Request) (s : Settings) : String :=
  if r.logFile = "" then s.logPath else r.logFile

/-- Whether anything at all is logged. A positive verbosity of the command line goes before the
settings. -/
def Request.isLogging (r : Request) (s : Settings) : Bool :=
  decide (-4 < if 0 < r.verbosity then r.verbosity else s.verbosity)

def Request.openLog (r : Request) (files : Snapshot) (s : Settings) : Except Fault Snapshot :=
  if r.logPath s ≠ "" && r.isLogging s then files.touch (r.logPath s) else .ok files

def Action.perform (files : Snapshot) (fuel : Nat) (s : Settings) : Action → Option Outcome
  | .tell text _ => some (Outcome.ofEffect (write (.text text)))
  | .dump format paths => some (Outcome.ofEffect (dumpFiles files format paths))
  | .run options className arguments =>
    runProgram files fuel (options.apply files.workingDirectory s) options.printClass
      (internalName className) arguments

def Request.perform (files : Snapshot) (fuel : Nat) (r : Request) : Option Outcome :=
  match r.action, r.settings files with
  | .tell text false, _ => Action.perform files fuel Settings.standard (.tell text false)
  | _, .error f => some (.failed f)
  | action, .ok s =>
    match r.openLog files s with
    | .error f => some ⟨[], .logFailure f⟩
    | .ok files => action.perform files fuel s

def execute (reader : Reader) (files : Snapshot) (fuel : Nat) (words : List String) :
    Option Outcome :=
  match Request.ofWords reader words with
  | .error f => some (.failed f)
  | .ok r => r.perform files fuel

/-! ### What a command reads -/

def Request.settingsFiles (r : Request) (workingDirectory : String) : List String :=
  if r.settingsFile = "" then
    (Settings.ancestors workingDirectory).map fun d => Path.join [d, Settings.fileName]
  else [r.settingsFile]

def Request.logFile? (r : Request) (files : Snapshot) : Option String :=
  match r.action, r.settings files with
  | .tell _ false, _ => none
  | _, .error _ => none
  | _, .ok s => if r.logPath s ≠ "" && r.isLogging s then some (r.logPath s) else none

/-- The files that a request may read, and the directories below which it may read classes, once its
settings are known. -/
def Request.sources (r : Request) (files : Snapshot) : List String :=
  match r.action, r.settings files with
  | .dump _ paths, _ => paths
  | .run options _ _, .ok s => elementsOf (options.apply files.workingDirectory s)
  | _, _ => []

end Jvm.Command
