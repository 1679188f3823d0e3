/-!
# Flags

The flags that commands declare, and what is known of a command line once its flags have been read.
-/

namespace Jvm.Command

inductive FlagKind where
  | text
  | number
  | toggle
  | count
  deriving Repr, DecidableEq

structure Flag where
  name : String
  letter? : Option Char := none
  kind : FlagKind
  usage : String
  /-- The value when the flag is not given, where that is worth telling. -/
  default? : Option String := none
  deriving Repr, DecidableEq

inductive FlagValue where
  | text (value : String)
  | number (value : Int)
  | toggle (value : Bool)
  | count (value : Int)
  deriving Repr, DecidableEq

/-- A command line that has been read: the flags that were given, by name, and the arguments. -/
structure Reading where
  given : List (String × FlagValue) := []
  arguments : List String := []
  deriving Repr, DecidableEq

namespace Reading

def text? (r : Reading) (name : String) : Option String :=
  match r.given.lookup name with
  | some (.text value) => some value
  | _ => none

def number? (r : Reading) (name : String) : Option Int :=
  match r.given.lookup name with
  | some (.number value) => some value
  | _ => none

def isSet (r : Reading) (name : String) : Bool := r.given.lookup name = some (.toggle true)

def count (r : Reading) (name : String) : Int :=
  match r.given.lookup name with
  | some (.count value) => value
  | _ => 0

end Reading

end Jvm.Command
