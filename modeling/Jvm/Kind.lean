/-!
# Kinds of values

The five kinds of value that instructions tell apart. A slot or a result may also hold nothing at
all, so most signatures speak of an `Option Kind`.
-/

namespace Jvm

/-- The kinds of value, in the order in which instruction families list them. -/
inductive Kind where
  | int
  | long
  | float
  | double
  | reference
  deriving Repr, DecidableEq, Inhabited

namespace Kind

def all : List Kind := [int, long, float, double, reference]

/-- The position of a kind in an instruction family. -/
def position : Kind → Nat
  | int => 0
  | long => 1
  | float => 2
  | double => 3
  | reference => 4

def letter : Kind → String
  | int => "i"
  | long => "l"
  | float => "f"
  | double => "d"
  | reference => "a"

def name : Kind → String
  | int => "int"
  | long => "long"
  | float => "float"
  | double => "double"
  | reference => "reference"

/-- Whether a value of this kind takes two slots. -/
def isWide : Kind → Bool
  | long | double => true
  | int | float | reference => false

/-- The word for a kind, or for the absence of a value. -/
def describe : Option Kind → String
  | some k => k.name
  | none => "none"

/-- The kind that stores a value of the given descriptor, by its first character. -/
def ofDescriptor? (descriptor : String) : Option Kind :=
  match descriptor.toList with
  | [] => none
  | 'J' :: _ => some long
  | 'F' :: _ => some float
  | 'D' :: _ => some double
  | 'L' :: _ | '[' :: _ => some reference
  | _ => some int

end Kind

end Jvm
