/-!
# Faults

Every failure of the toolkit is a `Fault`: a classified cause, or plain text, below any number of
contexts. `Fault.message` is the one place where a fault becomes text; `Fault.kind` and
`Fault.cause?` are the classification that a caller can branch on.
-/

namespace Jvm

/-- The classes of failure. `other` keeps a code outside the taxonomy. -/
inductive FaultKind where
  | unknown
  | format
  | index
  | typeMismatch
  | resolution
  | arithmetic
  | unknownInstruction
  | stackOverflow
  | other (code : Int)
  deriving Repr, DecidableEq, Inhabited

namespace FaultKind

def ofCode : Int → FaultKind
  | 0 => unknown
  | 1 => format
  | 2 => index
  | 3 => typeMismatch
  | 4 => resolution
  | 5 => arithmetic
  | 6 => unknownInstruction
  | 7 => stackOverflow
  | n => other n

def code : FaultKind → Int
  | unknown => 0
  | format => 1
  | index => 2
  | typeMismatch => 3
  | resolution => 4
  | arithmetic => 5
  | unknownInstruction => 6
  | stackOverflow => 7
  | other n => n

def name : FaultKind → String
  | format => "FormatError"
  | index => "IndexError"
  | typeMismatch => "TypeMismatch"
  | resolution => "ResolutionError"
  | arithmetic => "ArithmeticFault"
  | unknownInstruction => "UnknownInstruction"
  | stackOverflow => "StackOverflow"
  | unknown | other _ => "Unknown"

end FaultKind

/-- What went wrong, independent of where. -/
inductive Cause where
  | badMagic
  | trailingData
  | truncated
  | invalidConstantTag
  | malformedAttribute
  | malformedDescriptor
  | invalidConstantIndex
  | localOutOfBounds
  | stackUnderflow
  | arrayIndexOutOfBounds
  | typeMismatch
  | nullReference
  | classNotFound
  | methodNotFound
  | fieldNotFound
  | ambiguousInterfaceMethod
  | unsupportedMethodKind
  | incompatibleClassChange
  | classCircularity
  | divideByZero
  | unknownInstruction
  | invalidJumpTarget
  | stackOverflow
  deriving Repr, DecidableEq, Inhabited

def Cause.text : Cause → String
  | badMagic => "bad magic"
  | trailingData => "trailing data"
  | truncated => "truncated class file"
  | invalidConstantTag => "invalid constant tag"
  | malformedAttribute => "malformed attribute"
  | malformedDescriptor => "malformed descriptor"
  | invalidConstantIndex => "invalid constant index"
  | localOutOfBounds => "local variable index out of bounds"
  | stackUnderflow => "operand stack underflow"
  | arrayIndexOutOfBounds => "array index out of bounds"
  | typeMismatch => "type mismatch"
  | nullReference => "null reference"
  | classNotFound => "class not found"
  | methodNotFound => "method not found"
  | fieldNotFound => "field not found"
  | ambiguousInterfaceMethod => "ambiguous interface method"
  | unsupportedMethodKind => "unsupported method kind"
  | incompatibleClassChange => "incompatible class change"
  | classCircularity => "class circularity"
  | divideByZero => "division by zero"
  | unknownInstruction => "unknown instruction"
  | invalidJumpTarget => "invalid jump target"
  | stackOverflow => "stack overflow"

/-- A failure: a bare cause or plain text at the bottom, classified and put into context above. -/
inductive Fault where
  /-- A cause that nothing has classified yet. -/
  | bare (cause : Cause)
  /-- A failure outside the taxonomy, such as one of the file system. -/
  | plain (text : String)
  /-- A failure put into a class, with an optional detail. -/
  | classified (kind : FaultKind) (inner : Fault) (detail : String)
  /-- A failure seen from an enclosing activity. -/
  | context (label : String) (inner : Fault)
  deriving Repr, DecidableEq, Inhabited

namespace Fault

/-- A cause put into its class, with a detail. -/
def of (kind : FaultKind) (cause : Cause) (detail : String) : Fault :=
  classified kind (bare cause) detail

/-- The full text: contexts from the outside in, then class, cause and detail. -/
def message : Fault → String
  | bare cause => cause.text
  | plain text => text
  | classified kind inner detail =>
    if detail = "" then kind.name ++ ": " ++ inner.message
    else kind.name ++ ": " ++ inner.message ++ ": " ++ detail
  | context label inner => label ++ ": " ++ inner.message

/-- The class of the outermost classified fault; `unknown` when there is none. -/
def kind : Fault → FaultKind
  | bare _ | plain _ => .unknown
  | classified kind _ _ => kind
  | context _ inner => inner.kind

/-- The cause at the bottom, when there is one. -/
def cause? : Fault → Option Cause
  | bare cause => some cause
  | plain _ => none
  | classified _ inner _ | context _ inner => inner.cause?

@[simp] theorem kind_of (k : FaultKind) (c : Cause) (d : String) : (of k c d).kind = k := rfl

@[simp] theorem cause?_of (k : FaultKind) (c : Cause) (d : String) :
    (of k c d).cause? = some c := rfl

@[simp] theorem kind_context (l : String) (f : Fault) : (context l f).kind = f.kind := rfl

@[simp] theorem cause?_context (l : String) (f : Fault) : (context l f).cause? = f.cause? := rfl

end Fault

/-- Runs `action` and puts a failure into the context `label`. -/
def inContext {α : Type} (label : String) : Except Fault α → Except Fault α
  | .ok a => .ok a
  | .error f => .error (.context label f)

@[simp] theorem inContext_ok {α : Type} (label : String) (a : α) :
    inContext label (.ok a) = .ok a := rfl

@[simp] theorem inContext_error {α : Type} (label : String) (f : Fault) :
    inContext label (.error f : Except Fault α) = .error (.context label f) := rfl

end Jvm
