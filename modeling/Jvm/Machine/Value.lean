import Jvm.Float.Decimal
import Jvm.Kind

/-!
# Values

What an operand-stack entry, a local slot, a field or an array element holds. Floating-point values
are bit patterns. A reference says what it points at and which one it is: instances and arrays are
numbered in the order of their allocation, and a string, which never changes, carries its content
together with the origin that gives it its identity.
-/

namespace Jvm

/-- Where a string object comes from. Two string references are the same object when content and
origin agree. -/
inductive StringOrigin where
  /-- The initial value of a static field, by the class that declares it and its slot. -/
  | staticField (className : String) (slot : Nat)
  /-- An object made while the machine runs. -/
  | fresh (serial : Nat)
  deriving Repr, DecidableEq

inductive Reference where
  | object (number : Nat)
  | array (number : Nat)
  | string (content : String) (origin : StringOrigin)
  deriving Repr, DecidableEq

inductive Value where
  /-- An unset slot, the second slot of a wide value, or the result of a `void` method. -/
  | none
  | int (value : Int32)
  | long (value : Int64)
  | float (bits : UInt32)
  | double (bits : UInt64)
  | null
  | reference (target : Reference)
  deriving Repr, DecidableEq, Inhabited

namespace Value

def kind? : Value → Option Kind
  | none => Option.none
  | int _ => some .int
  | long _ => some .long
  | float _ => some .float
  | double _ => some .double
  | null | reference _ => some .reference

def isNull (v : Value) : Bool := v = null

def isWide (v : Value) : Bool :=
  match v.kind? with
  | some k => k.isWide
  | Option.none => false

def isPresent (v : Value) : Bool := v ≠ none

/-- The integer of an `int`, the low half of a `long`, otherwise 0. -/
def toInt32 : Value → Int32
  | int v => v
  | long v => v.toInt32
  | _ => 0

/-- The bits of a `float`, a `double` rounded to one, otherwise those of 0. -/
def toFloatBits : Value → UInt32
  | float bits => bits
  | double bits => Float.narrow bits
  | _ => 0

def zero : Option Kind → Value
  | some .long => long 0
  | some .float => float 0
  | some .double => double 0
  | some .reference => null
  | some .int | Option.none => int 0

def zeroOf (descriptor : String) : Value := zero (Kind.ofDescriptor? descriptor)

/-- Whether two values are equal: numbers by value, so that no NaN equals itself and the two zeros
agree, and references by identity. -/
def same (a b : Value) : Bool :=
  let number (f : Float.Format) (x y : Nat) : Bool :=
    match Float.decode f x, Float.decode f y with
    | .nan, _ => false
    | .finite _ 0 _, .finite _ 0 _ => true
    | m, n => m = n
  match a, b with
  | float x, float y => number .single x.toNat y.toNat
  | double x, double y => number .double x.toNat y.toNat
  | _, _ => a = b

end Value

end Jvm
