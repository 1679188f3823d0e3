import Jvm.Command.Help
import Jvm.Text.Integer

/-!
# Reading command lines

The reader that the program is run with. A command is called by the first word that is neither a flag
nor the value of one, and the other words are read by the flags of that command: `--name`,
`--name=value`, `--name value`, and one-letter forms that can stand together behind one dash. What is
no flag is an argument; after `--` everything is.
-/

namespace Jvm.Command

/-- The value of a flag that is given without one; `none` when it needs one. -/
def Flag.implied? (f : Flag) : Option String :=
  match f.kind with
  | .toggle => some "true"
  | .count => some "+1"
  | .text | .number => none

def truth? (s : String) : Option Bool :=
  if ["1", "t", "T", "TRUE", "true", "True"].contains s then some true
  else if ["0", "f", "F", "FALSE", "false", "False"].contains s then some false
  else none

/-! ### Failures -/

inductive FlagError where
  | malformed (word : String)
  | unknown (name : String)
  | unknownLetter (letter : Char) (letters : String)
  | missingValue (name : String)
  | missingLetterValue (letter : Char) (letters : String)
  | badValue (flag : Flag) (value reason : String)
  deriving Repr, DecidableEq

/-- The first byte of the encoding of a character, as a character. -/
def leadingByte (c : Char) : Char :=
  Char.ofNat (((String.singleton c).toUTF8.toList.head?.map UInt8.toNat).getD 0)

/-- The wording of a failure. An unknown letter beyond ASCII is shown by the byte that leads the
encoding of its own leading byte. -/
def FlagError.text : FlagError → String
  | malformed word => "bad flag syntax: " ++ word
  | unknown name => "unknown flag: --" ++ name
  | unknownLetter letter letters =>
    "unknown shorthand flag: " ++ Text.quotedChar (leadingByte (leadingByte letter)) ++ " in -" ++
      letters
  | missingValue name => "flag needs an argument: --" ++ name
  | missingLetterValue letter letters =>
    "flag needs an argument: " ++ Text.quotedChar letter ++ " in -" ++ letters
  | badValue flag value reason =>
    "invalid argument " ++ Text.quoted value ++ " for " ++ Text.quoted flag.title ++ " flag: " ++
      reason

def Flag.objection? (f : Flag) (value : String) : Option String :=
  let reason (reader : String) (failure : Text.Integer.Failure) :=
    "strconv." ++ reader ++ ": parsing " ++ Text.quoted value ++ ": " ++ failure.text
  match f.kind with
  | .text => none
  | .toggle => if (truth? value).isSome then none else some (reason "ParseBool" .malformed)
  | .number | .count =>
    match Text.Integer.literal value with
    | .ok _ => none
    | .error failure => some (reason "ParseInt" failure)

/-! ### Reading -/

/-- Words that have been read: the flags with their values in order, and the arguments. -/
structure Words where
  given : List (Flag × String) := []
  arguments : List String := []
  deriving Repr, DecidableEq

namespace Words

/-- What a flag has come to: the last value counts. Each plain use of a counting flag counts one, and
a number replaces the count. -/
def value? (ws : Words) (f : Flag) : Option FlagValue :=
  let values := (ws.given.filter fun g => g.1.name == f.name).map (·.2)
  values.getLast?.map fun last =>
    match f.kind with
    | .text => .text last
    | .toggle => .toggle (truth? last = some true)
    | .number => .number ((Text.Integer.literal last).toOption.getD 0)
    | .count => .count (values.foldl (fun n v =>
        if v = "+1" then n + 1 else ((Text.Integer.literal v).toOption).getD n) 0)

def reading (ws : Words) (flags : List Flag) : Reading where
  given := flags.filterMap fun f => (ws.value? f).map fun v => (f.name, v)
  arguments := ws.arguments

end Words

def give (f : Flag) (value : String) (r : Words) : Except FlagError Words :=
  match f.objection? value with
  | some reason => .error (.badValue f value reason)
  | none => .ok { r with given := r.given ++ [(f, value)] }

/-- What a word with flags asks for next. -/
inductive Demand where
  /-- Nothing more. -/
  | done
  /-- The value of a flag is the next word; without one, there is a failure. -/
  | value (flag : Flag) (otherwise : FlagError)

def longFlag (flags : List Flag) (name : String) (r : Words) :
    Except FlagError (Words × Demand) :=
  let cs := name.toList
  if cs.head? = some '-' || cs.head? = some '=' then .error (.malformed ("--" ++ name))
  else
    let key := String.ofList (cs.takeWhile (· ≠ '='))
    match flags.find? (·.name == key) with
    | none => .error (.unknown key)
    | some f =>
      match cs.dropWhile (· ≠ '='), f.implied? with
      | _ :: value, _ => (give f (String.ofList value) r).map fun r => (r, .done)
      | [], some value => (give f value r).map fun r => (r, .done)
      | [], none => .ok (r, .value f (.missingValue key))

/-- The flags of a word after one dash, from the first letter on. A flag that needs a value takes the
letters after it, or the next word. Letters that start with `test.` are passed over. -/
def letterFlags (flags : List Flag) : List Char → Words → Except FlagError (Words × Demand)
  | [], r => .ok (r, .done)
  | c :: rest, r =>
    let letters := String.ofList (c :: rest)
    if "test.".toList.isPrefixOf (c :: rest) then .ok (r, .done)
    else match flags.find? (·.letter? == some c) with
      | none => .error (.unknownLetter c letters)
      | some f =>
        match rest, f.implied? with
        | '=' :: v :: value, _ => (give f (String.ofList (v :: value)) r).map fun r => (r, .done)
        | _, some value =>
          match give f value r with
          | .ok r => letterFlags flags rest r
          | .error e => .error e
        | [], none => .ok (r, .value f (.missingLetterValue c letters))
        | _ :: _, none => (give f (String.ofList rest) r).map fun r => (r, .done)

inductive Word where
  | argument
  | separator
  | long (name : String)
  | letters (letters : List Char)

/-- Tells the words of a command line apart. A single dash is an argument. -/
def Word.of (s : String) : Word :=
  match s.toList with
  | ['-', '-'] => .separator
  | '-' :: '-' :: name => .long (String.ofList name)
  | '-' :: c :: rest => .letters (c :: rest)
  | _ => .argument

/-- Reads the words of a command line. Unless flags and arguments may be mixed, the first argument ends
the flags. -/
def read (flags : List Flag) (mixed : Bool) : List String → Words → Except FlagError Words
  | [], r => .ok r
  | word :: rest, r =>
    match Word.of word with
    | .argument =>
      if mixed then read flags mixed rest { r with arguments := r.arguments ++ [word] }
      else .ok { r with arguments := r.arguments ++ word :: rest }
    | .separator => .ok { r with arguments := r.arguments ++ rest }
    | .long name => next rest (longFlag flags name r)
    | .letters letters => next rest (letterFlags flags letters r)
where
  next : List String → Except FlagError (Words × Demand) → Except FlagError Words
    | _, .error e => .error e
    | rest, .ok (r, .done) => read flags mixed rest r
    | [], .ok (_, .value _ otherwise) => .error otherwise
    | value :: rest, .ok (r, .value f _) =>
      match give f value r with
      | .error e => .error e
      | .ok r => read flags mixed rest r

/-! ### Finding the command -/

/-- Whether a word is a flag, known to all commands or not, whose value would be the next word. One
letter beyond ASCII is not taken for a flag here. -/
def takesNext (word : String) : Bool :=
  if word.toList.contains '=' then false
  else match Word.of word with
    | .long name => ((commonFlags.find? (·.name == name)).bind Flag.implied?).isNone
    | .letters [c] =>
      c.toNat < 128 && ((commonFlags.find? (·.letter? == some c)).bind Flag.implied?).isNone
    | _ => false

/-- The first word that is neither a flag nor the value of one. A flag whose value would be the last
word ends the search. -/
def firstPlain? : List String → Option String
  | [] => none
  | word :: rest =>
    if word = "--" then none
    else if takesNext word then
      match rest with
      | _ :: second :: others => firstPlain? (second :: others)
      | _ => none
    else if word ≠ "" && word.toList.head? ≠ some '-' then some word
    else firstPlain? rest

/-- The words without the first one that is a given plain word. -/
def withoutPlain (x : String) : List String → List String
  | [] => []
  | word :: rest =>
    if word = "--" then word :: rest
    else if takesNext word then
      match rest with
      | value :: others => word :: value :: withoutPlain x others
      | [] => [word]
    else if word = x && word.toList.head? ≠ some '-' then rest
    else word :: withoutPlain x rest

/-! ### Calls -/

/-- What the arguments of `help` ask for: the page of a command, or that of the program. -/
def helpTopic? (declarations : List Declaration) (arguments : List String) : Option Page :=
  match firstPlain? arguments with
  | none => some Page.program
  | some "help" => some Page.help
  | some "completion" => some Page.completion
  | some word => (declarations.find? (·.command.text == word)).map Page.ofDeclaration

/-- Reads words for what a page is about. Where they ask for help, the page is the answer. -/
def readFor (p : Page) (mixed : Bool) (words : List String) (call : Reading → Call) :
    Except Fault Call :=
  match read p.knownFlags mixed words {} with
  | .error e => .error (.plain e.text)
  | .ok ws =>
    let r := ws.reading p.knownFlags
    if r.isSet "help" then .ok (.answer p.text r false) else .ok (call r)

def standardReader : Reader := fun declarations words =>
  match firstPlain? words with
  | none => readFor Page.program true words fun r => .answer Page.program.text r false
  | some word =>
    let operands := withoutPlain word words
    match declarations.find? (·.command.text == word) with
    | some d => readFor (Page.ofDeclaration d) d.mixed operands (.command d.command)
    | none =>
      if word = "help" then readFor Page.help true operands fun r =>
        .answer (((helpTopic? declarations r.arguments).map Page.text).getD "") r true
      else if word = "completion" then readFor Page.completion true operands fun r =>
        .answer Page.completion.text r false
      else .error (.plain
        ("unknown command " ++ Text.quoted word ++ " for " ++ Text.quoted programName))

end Jvm.Command
