import Jvm.Command.Line
import Jvm.Text.Quoted

/-!
# Help

What the program tells about itself and its commands: a description, the forms in which it is called,
and tables of commands and flags.
-/

namespace Jvm.Command

def programName : String := "jedy"

def Flag.title (f : Flag) : String :=
  match f.letter? with
  | some c => "-" ++ String.singleton c ++ ", --" ++ f.name
  | none => "--" ++ f.name

/-! ### Tables -/

def pad (width : Nat) (s : String) : String :=
  s ++ String.ofList (List.replicate (width - s.length) ' ')

def FlagKind.valueName : FlagKind → String
  | text => " string"
  | number => " int"
  | toggle => ""
  | count => " count"

def Flag.form (f : Flag) : String :=
  (if f.letter?.isSome then "  " else "      ") ++ f.title ++ f.kind.valueName

def Flag.purpose (f : Flag) : String :=
  match f.default?, f.kind with
  | none, _ => f.usage
  | some value, .text => f.usage ++ " (default " ++ Text.quoted value ++ ")"
  | some value, _ => f.usage ++ " (default " ++ value ++ ")"

/-- The flags by name, one a line, with their purposes in one column. -/
def flagTable (flags : List Flag) : List String :=
  let width := (flags.map fun f => f.form.length).foldl max 0
  (flags.mergeSort fun a b => decide (a.name ≤ b.name)).map fun f =>
    pad (width + 3) f.form ++ f.purpose

structure Entry where
  name : String
  summary : String
  deriving Repr, DecidableEq

/-- The least width of the names in a table of commands. -/
def entryWidth : Nat := 12

/-! ### Pages -/

structure Page where
  /-- The words by which it is called. -/
  title : String
  description : String
  /-- What follows the title when it is called; `none` when it needs a command. -/
  operands? : Option String
  entries : List Entry := []
  flags : List Flag
  /-- The flags that it has in common with other commands. -/
  sharedFlags : List Flag
  deriving Repr, DecidableEq

namespace Page

def part (heading : String) (lines : List String) : List String :=
  if lines.isEmpty then [] else "" :: heading :: lines

def lines (p : Page) : List String :=
  let called := match p.operands? with
    | some operands => [String.intercalate " " ["  " ++ p.title, operands, "[flags]"]]
    | none => ["  " ++ p.title ++ " [command]"]
  [p.description, "", "Usage:"] ++ called ++
    part "Available Commands:"
      (p.entries.map fun e => "  " ++ pad entryWidth e.name ++ e.summary) ++
    part "Flags:" (flagTable p.flags) ++
    part "Global Flags:" (flagTable p.sharedFlags) ++
    if p.entries.isEmpty then []
    else ["", "Use \"" ++ p.title ++ " [command] --help\" for more information about a command."]

def text (p : Page) : String := String.join (p.lines.map (· ++ "\n"))

end Page

/-! ### The program and its commands -/

def helpFlag (subject : String) : Flag :=
  { name := "help", letter? := some 'h', kind := .toggle, usage := "help for " ++ subject }

namespace Page

def program : Page where
  title := programName
  description := "A class-file loader and bytecode interpreter"
  operands? := none
  entries := [
    ⟨"completion", "Generate the autocompletion script for the specified shell"⟩,
    ⟨"disasm", "List the instructions of every method"⟩,
    ⟨"dump", "Dump the parsed structure of class files"⟩,
    ⟨"help", "Help about any command"⟩,
    ⟨"run", "Load a class and run its main method"⟩]
  flags := commonFlags ++ [helpFlag programName]
  sharedFlags := []

def ofCommand (name operands description : String) (flags : List Flag) : Page where
  title := programName ++ " " ++ name
  description := description
  operands? := some operands
  flags := flags ++ [helpFlag name]
  sharedFlags := commonFlags

def ofDeclaration (d : Declaration) : Page :=
  match d.command with
  | .run =>
    ofCommand d.command.text "<class> [args...]"
      ("Load a class from the class path and run its entry method.\n\n" ++
        "The class may be given as app.Main or app/Main. The entry method defaults to\n" ++
        "main([Ljava/lang/String;)V; jedy.toml can select another static method taking\n" ++
        "no parameters or a String[]. Remaining arguments are passed to the program.\n\n" ++
        "Class path elements are searched in order: --classpath, --library-path, then\n" ++
        "the java.base module of --java-home.") d.flags
  | .dump =>
    ofCommand d.command.text "<file.class>..." "Dump the parsed structure of class files" d.flags
  | .disasm =>
    ofCommand d.command.text "<file.class>..." "List the instructions of every method" d.flags

def help : Page :=
  ofCommand "help" "[command]"
    ("Help provides help for any command in the application.\n" ++
      "Simply type " ++ programName ++ " help [path to command] for full details.") []

def completion : Page where
  title := programName ++ " completion"
  description := "Generate the autocompletion script for " ++ programName ++
    " for the specified shell.\n" ++
    "See each sub-command's help for details on how to use the generated script."
  operands? := none
  entries := ["bash", "fish", "powershell", "zsh"].map fun shell =>
    ⟨shell, "Generate the autocompletion script for " ++ shell⟩
  flags := [helpFlag "completion"]
  sharedFlags := commonFlags

def knownFlags (p : Page) : List Flag := p.flags ++ p.sharedFlags

end Page

end Jvm.Command
