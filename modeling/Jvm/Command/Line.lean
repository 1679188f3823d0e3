import Jvm.Command.Flag
import Jvm.Fault
import Jvm.Machine.Invocation
import Jvm.Report.Format

/-!
# Command lines

The commands with their flags, and what a command line asks for. How the words of a command line are
taken apart is left to a `Reader`, which is given the declarations of the commands.
-/

namespace Jvm.Command

/-! ### Commands -/

inductive Name where
  | run
  | dump
  | disasm
  deriving Repr, DecidableEq

def Name.text : Name → String
  | run => "run"
  | dump => "dump"
  | disasm => "disasm"

structure Declaration where
  command : Name
  flags : List Flag
  /-- Whether flags may stand between the arguments. -/
  mixed : Bool
  deriving Repr, DecidableEq

/-- The flags that every command knows. -/
def commonFlags : List Flag := [
  { name := "config", kind := .text
    usage := "path to jedy.toml (default: search upward from the working directory)" },
  { name := "verbose", letter? := some 'v', kind := .count
    usage := "increase log verbosity (repeatable)" },
  { name := "log-file", kind := .text, usage := "write logs to this file instead of stderr" }]

/-- The arguments of a program that is run are its own, so no flags are looked for among them. -/
def runDeclaration : Declaration where
  command := .run
  flags := [
    { name := "classpath", letter? := some 'c', kind := .text
      usage := "class path (directories, jars, zips, jmods)" },
    { name := "library-path", kind := .text, usage := "class path searched after --classpath" },
    { name := "java-home", kind := .text
      usage := "JDK whose jmods/java.base.jmod supplies the platform classes" },
    { name := "print-class", kind := .toggle
      usage := "print the parsed class before running it" },
    { name := "max-depth", kind := .number, usage := "maximum frame-stack depth"
      default? := some (toString defaultMaxDepth) }]
  mixed := false

def dumpDeclaration : Declaration where
  command := .dump
  flags := [
    { name := "format", letter? := some 'f', kind := .text
      usage :=
        "output format (" ++ String.intercalate ", " (ReportFormat.all.map ReportFormat.name) ++ ")"
      default? := some "line" }]
  mixed := true

def disasmDeclaration : Declaration := ⟨.disasm, [], true⟩

def declarations : List Declaration := [runDeclaration, dumpDeclaration, disasmDeclaration]

/-! ### Readers -/

/-- What a reader makes of a command line. -/
inductive Call where
  /-- A command is called. -/
  | command (name : Name) (reading : Reading)
  /-- The reader answers by itself, before the settings are known or after. -/
  | answer (text : String) (reading : Reading) (configured : Bool)
  deriving Repr, DecidableEq

/-- Takes command lines apart, by the declarations of the commands. -/
abbrev Reader := List Declaration → List String → Except Fault Call

/-- The launcher's spelling of the class-path flag is taken for `--classpath`, up to a `--`. -/
def expandClassPath : List String → List String
  | [] => []
  | word :: rest =>
    if word = "--" then word :: rest
    else (if word = "-cp" then "--classpath" else word) :: expandClassPath rest

/-! ### Requests -/

structure RunOptions where
  classPath? : Option String
  libraryPath? : Option String
  javaHome? : Option String
  maxDepth? : Option Int
  printClass : Bool
  deriving Repr, DecidableEq

def RunOptions.ofReading (r : Reading) : RunOptions where
  classPath? := r.text? "classpath"
  libraryPath? := r.text? "library-path"
  javaHome? := r.text? "java-home"
  maxDepth? := r.number? "max-depth"
  printClass := r.isSet "print-class"

inductive Action where
  /-- Tells a text, once the settings are known or without. -/
  | tell (text : String) (configured : Bool)
  | run (options : RunOptions) (className : String) (arguments : List String)
  | dump (format : String) (files : List String)
  deriving Repr, DecidableEq

/-- What a command line asks for, with what it says to all commands. -/
structure Request where
  /-- The settings file; empty when the command line names none. -/
  settingsFile : String
  /-- The log file; empty when the command line names none. -/
  logFile : String
  verbosity : Int
  action : Action
  deriving Repr, DecidableEq

/-- The failure of a command that was given no arguments. -/
def noArguments : Fault := .plain "requires at least 1 arg(s), only received 0"

def actionOf (name : Name) (r : Reading) : Except Fault Action :=
  match name, r.arguments with
  | _, [] => .error noArguments
  | .dump, files => .ok (.dump ((r.text? "format").getD "line") files)
  | .disasm, files => .ok (.dump "disasm" files)
  | .run, className :: arguments => .ok (.run (.ofReading r) className arguments)

def Reading.request (r : Reading) (action : Action) : Request where
  settingsFile := (r.text? "config").getD ""
  logFile := (r.text? "log-file").getD ""
  verbosity := r.count "verbose"
  action := action

def Request.ofWords (reader : Reader) (words : List String) : Except Fault Request := do
  match ← reader declarations (expandClassPath words) with
  | .command name r => r.request <$> actionOf name r
  | .answer text r configured => return r.request (.tell text configured)

end Jvm.Command
