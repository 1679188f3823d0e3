import Jvm.Fault
import Jvm.Kind
import Jvm.Text.Quoted

/-!
# Descriptors

The types of fields and methods as the class file spells them, read into structured types and
written back. A field type is any number of `[` before a base letter or `L` name `;`; a method
descriptor is the parameter types in parentheses and a result type or `V`.
-/

namespace Jvm

/-! ### Names -/

/-- A class name with its packages separated by points. -/
def sourceName (name : String) : String :=
  String.ofList (name.toList.map fun c => if c = '/' then '.' else c)

/-- A class name with its packages separated by slashes. -/
def internalName (name : String) : String :=
  String.ofList (name.toList.map fun c => if c = '.' then '/' else c)

/-! ### Types -/

/-- The type of a value that is not an array. -/
inductive ElementType where
  | byte
  | char
  | double
  | float
  | int
  | long
  | short
  | boolean
  | object (className : String)
  deriving Repr, DecidableEq, Inhabited

namespace ElementType

def letter : ElementType → Char
  | byte => 'B'
  | char => 'C'
  | double => 'D'
  | float => 'F'
  | int => 'I'
  | long => 'J'
  | short => 'S'
  | boolean => 'Z'
  | object _ => 'L'

/-- The word for a base type; empty for a class. -/
def baseName : ElementType → String
  | byte => "byte"
  | char => "char"
  | double => "double"
  | float => "float"
  | int => "int"
  | long => "long"
  | short => "short"
  | boolean => "boolean"
  | object _ => ""

/-- The internal name of a class; empty for a base type. -/
def className : ElementType → String
  | object name => name
  | _ => ""

/-- The type as source code writes it. -/
def text : ElementType → String
  | object name => sourceName name
  | t => t.baseName

def descriptor : ElementType → List Char
  | object name => 'L' :: name.toList ++ [';']
  | t => [t.letter]

end ElementType

/-- The type of a field, parameter or result: an element type below some number of array
dimensions. -/
structure FieldType where
  element : ElementType
  depth : Nat
  deriving Repr, DecidableEq, Inhabited

namespace FieldType

def text (t : FieldType) : String :=
  t.element.text ++ String.join (List.replicate t.depth "[]")

def descriptor (t : FieldType) : List Char :=
  List.replicate t.depth '[' ++ t.element.descriptor

def isArray (t : FieldType) : Bool := 0 < t.depth

def isPrimitive (t : FieldType) : Bool := t.depth = 0 && t.element.className = ""

def isReference (t : FieldType) : Bool := t.element.className ≠ "" || 0 < t.depth

/-- The number of local slots that a value of the type takes. -/
def slots (t : FieldType) : Nat :=
  if t.depth = 0 ∧ (t.element = .long ∨ t.element = .double) then 2 else 1

def kind (t : FieldType) : Kind :=
  if t.depth = 0 then
    match t.element with
    | .long => .long
    | .float => .float
    | .double => .double
    | .object _ => .reference
    | _ => .int
  else .reference

end FieldType

/-- The parameters of a method and its result, which is absent for `void`. -/
structure MethodDescriptor where
  parameters : List FieldType
  result : Option FieldType
  deriving Repr, DecidableEq, Inhabited

namespace MethodDescriptor

def resultText : Option FieldType → String
  | some t => t.text
  | none => "void"

/-- Parameters in parentheses, then the result. -/
def text (d : MethodDescriptor) : String :=
  "(" ++ ", ".intercalate (d.parameters.map FieldType.text) ++ ") " ++ resultText d.result

def descriptor (d : MethodDescriptor) : List Char :=
  '(' :: d.parameters.flatMap FieldType.descriptor ++ ')' ::
    match d.result with
    | some t => t.descriptor
    | none => ['V']

/-- The number of local slots that the parameters take, without a receiver. -/
def parameterSlots (d : MethodDescriptor) : Nat :=
  (d.parameters.map FieldType.slots).foldl (· + ·) 0

end MethodDescriptor

/-! ### Reading -/

def ElementType.ofLetter? : Char → Option ElementType
  | 'B' => some .byte
  | 'C' => some .char
  | 'D' => some .double
  | 'F' => some .float
  | 'I' => some .int
  | 'J' => some .long
  | 'S' => some .short
  | 'Z' => some .boolean
  | _ => none

/-- Reads a type below `depth` dimensions from the front. -/
def FieldType.frontBelow? (depth : Nat) : List Char → Option (FieldType × List Char)
  | [] => none
  | '[' :: rest => frontBelow? (depth + 1) rest
  | 'L' :: rest =>
    let name := rest.takeWhile (· ≠ ';')
    match rest.dropWhile (· ≠ ';') with
    | _ :: after => if name.isEmpty then none else some (⟨.object (String.ofList name), depth⟩, after)
    | [] => none
  | c :: rest => do
    let element ← ElementType.ofLetter? c
    return (⟨element, depth⟩, rest)

def FieldType.front? (cs : List Char) : Option (FieldType × List Char) := frontBelow? 0 cs

def FieldType.ofChars? (cs : List Char) : Option FieldType :=
  match front? cs with
  | some (t, []) => some t
  | _ => none

/-- Reads parameter types up to the closing parenthesis, onto the reversed list `acc`. Every type
takes at least one character, so as much fuel as there are characters is enough. -/
def MethodDescriptor.parametersOnto? :
    Nat → List FieldType → List Char → Option (List FieldType × List Char)
  | _, acc, ')' :: rest => some (acc.reverse, rest)
  | 0, _, _ => none
  | fuel + 1, acc, cs =>
    match FieldType.front? cs with
    | some (t, rest) => parametersOnto? fuel (t :: acc) rest
    | none => none

def MethodDescriptor.result? : List Char → Option (Option FieldType)
  | ['V'] => some none
  | cs => (FieldType.ofChars? cs).map some

def MethodDescriptor.ofChars? : List Char → Option MethodDescriptor
  | '(' :: rest => do
    let (parameters, after) ← parametersOnto? rest.length [] rest
    let result ← result? after
    return { parameters, result }
  | _ => none

def malformedDescriptor (descriptor : String) : Fault :=
  .of .format .malformedDescriptor (Text.quoted descriptor)

def FieldType.parse (descriptor : String) : Except Fault FieldType :=
  match FieldType.ofChars? descriptor.toList with
  | some t => .ok t
  | none => .error (malformedDescriptor descriptor)

def MethodDescriptor.parse (descriptor : String) : Except Fault MethodDescriptor :=
  match MethodDescriptor.ofChars? descriptor.toList with
  | some d => .ok d
  | none => .error (malformedDescriptor descriptor)

end Jvm
