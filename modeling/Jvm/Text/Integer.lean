import Jvm.Text.Hex

/-!
# Integer literals

64-bit integers as they are typed by people: an optional sign, an optional radix mark (`0x`, `0o`,
`0b`, or a bare `0` for octal), digits, and single underscores between digits. A text that goes
wrong in two ways is reported by what comes first from the left, except that misplaced underscores
are noticed last.
-/

namespace Jvm.Text.Integer

inductive Failure where
  | malformed
  | outOfRange
  deriving Repr, DecidableEq

def Failure.text : Failure → String
  | malformed => "invalid syntax"
  | outOfRange => "value out of range"

/-- The least number that is too large for 64 bits. -/
def wordLimit : Nat := 0x10000000000000000

/-- The least number that is too large for 64 bits with a sign. -/
def signLimit : Nat := 0x8000000000000000

/-- Continues to read digits of the given base after the number `n`; underscores are passed over
where `separators` are allowed. -/
def digitsFrom (base : Nat) (separators : Bool) : Nat → List Char → Except Failure Nat
  | n, [] => .ok n
  | n, c :: rest =>
    if separators && c = '_' then digitsFrom base separators n rest
    else match Hex.digit? c with
      | none => .error .malformed
      | some d =>
        if base ≤ d then .error .malformed
        else if wordLimit ≤ n * base + d then .error .outOfRange
        else digitsFrom base separators (n * base + d) rest

def unsignedIn (base : Nat) (cs : List Char) : Except Failure Nat :=
  if cs.isEmpty then .error .malformed else digitsFrom base false 0 cs

/-- The base that a literal announces, and what follows the announcement. -/
def radix : List Char → Nat × List Char
  | '0' :: mark :: d :: rest =>
    match mark.toLower with
    | 'b' => (2, d :: rest)
    | 'o' => (8, d :: rest)
    | 'x' => (16, d :: rest)
    | _ => (8, mark :: d :: rest)
  | '0' :: rest => (8, rest)
  | cs => (10, cs)

/-- Whether every underscore stands between two digits, `afterDigit` being what stood before. -/
def separated : Bool → List Char → Bool
  | _, [] => true
  | afterDigit, '_' :: rest =>
    afterDigit && (match rest with
      | [] => false
      | c :: _ => c ≠ '_') && separated false rest
  | _, _ :: rest => separated true rest

/-- A literal without a sign. A radix mark counts as a digit for the underscore after it. -/
def unsignedLiteral (cs : List Char) : Except Failure Nat :=
  if cs.isEmpty then .error .malformed
  else
    let (base, digits) := radix cs
    match digitsFrom base true 0 digits with
    | .error f => .error f
    | .ok n =>
      let marked := base != 10
      if separated marked digits then .ok n else .error .malformed

def signed (unsigned : List Char → Except Failure Nat) (cs : List Char) : Except Failure Int :=
  match cs with
  | '-' :: rest => do
    let n ← unsigned rest
    if signLimit < n then .error .outOfRange else .ok (-(n : Int))
  | '+' :: rest => positive rest
  | _ => positive cs
where
  positive (digits : List Char) : Except Failure Int := do
    let n ← unsigned digits
    if signLimit ≤ n then .error .outOfRange else .ok n

def literal (s : String) : Except Failure Int := signed unsignedLiteral s.toList

end Jvm.Text.Integer
