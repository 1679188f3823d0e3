import Jvm.Fault
import Jvm.Instruction.Opcode
import Jvm.Machine.Value

/-!
# Arithmetic

Integer arithmetic wraps, division goes toward zero, and a shift uses the low five bits of its
distance. Only division by zero fails.
-/

namespace Jvm

def divisionByZero (detail : String) : Fault := .of .arithmetic .divideByZero detail

def IntOp.apply : IntOp → Int32 → Int32 → Except Fault Int32
  | add, a, b => .ok (a + b)
  | sub, a, b => .ok (a - b)
  | mul, a, b => .ok (a * b)
  | div, a, b => if b = 0 then .error (divisionByZero s!"idiv {a.toInt} / 0") else .ok (a / b)
  | rem, a, b => if b = 0 then .error (divisionByZero s!"irem {a.toInt} % 0") else .ok (a % b)
  | shl, a, b => .ok (a <<< (b &&& 31))
  | shr, a, b => .ok (a >>> (b &&& 31))
  | ushr, a, b => .ok (a.toUInt32 >>> (b &&& 31).toUInt32).toInt32
  | and, a, b => .ok (a &&& b)
  | or, a, b => .ok (a ||| b)
  | xor, a, b => .ok (a ^^^ b)

def LongOp.apply : LongOp → Int64 → Int64 → Except Fault Int64
  | add, a, b => .ok (a + b)
  | sub, a, b => .ok (a - b)
  | mul, a, b => .ok (a * b)
  | div, a, b => if b = 0 then .error (divisionByZero s!"ldiv {a.toInt} / 0") else .ok (a / b)
  | rem, a, b => if b = 0 then .error (divisionByZero s!"lrem {a.toInt} % 0") else .ok (a % b)

def Comparison.holds : Comparison → Int32 → Int32 → Bool
  | eq, a, b => a == b
  | ne, a, b => a != b
  | lt, a, b => a < b
  | ge, a, b => b ≤ a
  | gt, a, b => b < a
  | le, a, b => a ≤ b

/-- The sign of the comparison of two `long`s. -/
def compareLongs (a b : Int64) : Int32 := if b < a then 1 else if a < b then -1 else 0

/-- The low byte of an `int`, with its sign. -/
def intToByte (a : Int32) : Int32 := a.toInt8.toInt32

/-- The low half of an `int`, without a sign. -/
def intToChar (a : Int32) : Int32 := a.toUInt32.toUInt16.toUInt32.toInt32

/-- The low half of an `int`, with its sign. -/
def intToShort (a : Int32) : Int32 := a.toInt16.toInt32

end Jvm
