import Jvm.Files.Path
import Jvm.Machine.Runtime

/-!
# Settings

What a run can be told about: where classes are looked for, which method starts the program, how deep
calls may nest, and where the log goes. Relative paths start at the directory of the settings file.
-/

namespace Jvm

structure Settings where
  classPath : List String := []
  javaHome : String := ""
  libraryPath : List String := []
  maxDepth : Int := 0
  entryMethod : String := ""
  entryDescriptor : String := ""
  verbosity : Int := 0
  logFile : String := ""
  /-- The directory at which relative paths start; empty when they are left as they are. -/
  directory : String := ""
  deriving Repr, DecidableEq

namespace Settings

/-- Fills in what is not set. A depth that is not positive counts as not set. -/
def withDefaults (s : Settings) : Settings :=
  { s with
    maxDepth := if s.maxDepth ≤ 0 then defaultMaxDepth else s.maxDepth
    entryMethod := if s.entryMethod = "" then "main" else s.entryMethod
    entryDescriptor := if s.entryDescriptor = "" then mainDescriptor else s.entryDescriptor }

/-- The settings where there is no settings file. -/
def standard : Settings := ({} : Settings).withDefaults

def resolve (s : Settings) (path : String) : String :=
  if Path.isAbsolute path || s.directory = "" then path else Path.join [s.directory, path]

/-- The module with the platform's own classes in an installed platform. -/
def javaBase (home : String) : String := Path.join [home, "jmods", "java.base.jmod"]

/-- The elements of the class path in the order in which they are searched: the program's, the
libraries', the platform's. -/
def classPathElements (s : Settings) : List String :=
  s.classPath.map s.resolve ++ s.libraryPath.map s.resolve ++
    if s.javaHome = "" then [] else [javaBase (s.resolve s.javaHome)]

/-- The log file; empty when there is none. -/
def logPath (s : Settings) : String := if s.logFile = "" then "" else s.resolve s.logFile

end Settings

end Jvm
