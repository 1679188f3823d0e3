import Jvm.Text.Calendar
import Jvm.Text.Integer
import Jvm.Toml.Table

/-!
# TOML lexemes

The smallest pieces of a document: blanks and comments, the four kinds of string, and the scalars that
are written without quotes. A piece is read from the front of a text and gives back what follows it.
-/

namespace Jvm.Toml

/-! ### Blanks and comments -/

def isBlank (c : Char) : Bool := c = ' ' || c = '\t'

def isLineEnd (c : Char) : Bool := c = '\n' || c = '\r'

def skipBlanks (cs : List Char) : List Char := cs.dropWhile isBlank

/-- Passes over blanks, line ends and comments; `inComment` says that a comment has begun. -/
def skipLines : Bool → List Char → List Char
  | _, [] => []
  | true, c :: rest => skipLines (!isLineEnd c) rest
  | false, c :: rest =>
    if isBlank c || isLineEnd c then skipLines false rest
    else if c = '#' then skipLines true rest
    else c :: rest

/-- Whether every character of a document may stand in one: no control characters but tabs and line
ends, and no carriage return without a line feed after it. -/
def isWellFormed : List Char → Bool
  | [] => true
  | c :: rest =>
    (if c = '\r' then rest.head? = some '\n'
      else c = '\t' || c = '\n' || (0x20 ≤ c.toNat && c.toNat ≠ 0x7f)) && isWellFormed rest

/-! ### Strings -/

abbrev Quoted := Option (String × List Char)

/-- The string of characters that were collected in reverse. -/
def collected (reversed : List Char) : String := String.ofList reversed.reverse

def codePoint? (digits : List Char) : Option Char := do
  let n ← Text.Hex.toNat? digits
  if n.isValidChar then some (Char.ofNat n) else none

/-- The character that a letter stands for after a backslash. -/
def escape? (c : Char) : Option Char :=
  match c with
  | 'b' => some '\x08'
  | 't' => some '\t'
  | 'n' => some '\n'
  | 'f' => some '\x0c'
  | 'r' => some '\r'
  | 'e' => some '\x1b'
  | '"' => some '"'
  | '\\' => some '\\'
  | _ => none

/-- A string up to its double quote, with escapes. -/
def basicString (done : List Char) : List Char → Quoted
  | [] => none
  | '"' :: rest => some (collected done, rest)
  | '\\' :: 'x' :: a :: b :: rest =>
    match codePoint? [a, b] with
    | some c => basicString (c :: done) rest
    | none => none
  | '\\' :: 'u' :: a :: b :: c :: d :: rest =>
    match codePoint? [a, b, c, d] with
    | some c => basicString (c :: done) rest
    | none => none
  | '\\' :: 'U' :: a :: b :: c :: d :: e :: f :: g :: h :: rest =>
    match codePoint? [a, b, c, d, e, f, g, h] with
    | some c => basicString (c :: done) rest
    | none => none
  | '\\' :: letter :: rest =>
    match escape? letter with
    | some c => basicString (c :: done) rest
    | none => none
  | c :: rest => if c = '\\' || isLineEnd c then none else basicString (c :: done) rest

/-- A string up to its single quote, without escapes. -/
def literalString (done : List Char) : List Char → Quoted
  | [] => none
  | c :: rest =>
    if c = '\'' then some (collected done, rest)
    else if isLineEnd c then none
    else literalString (c :: done) rest

/-- The most quotes that can stand before the closing ones. -/
def maxInnerQuotes : Nat := 2

/-- Whether a backslash before this text hides a line end. -/
def hidesLineEnd (cs : List Char) : Bool := ((skipBlanks cs).head?.map isLineEnd).getD false

/-- A string of several lines up to its three double quotes, with escapes. `quotes` counts the quotes
right before; `trimming` says that blanks and line ends are passed over. -/
def basicBlock (quotes : Nat) (trimming : Bool) (done : List Char) : List Char → Quoted
  | [] => none
  | '"' :: '"' :: '"' :: '"' :: rest =>
    if quotes < maxInnerQuotes then
      basicBlock (quotes + 1) false ('"' :: done) ('"' :: '"' :: '"' :: rest)
    else none
  | '"' :: '"' :: '"' :: rest => some (collected done, rest)
  | '\\' :: 'x' :: a :: b :: rest =>
    match codePoint? [a, b] with
    | some c => basicBlock 0 false (c :: done) rest
    | none => none
  | '\\' :: 'u' :: a :: b :: c :: d :: rest =>
    match codePoint? [a, b, c, d] with
    | some c => basicBlock 0 false (c :: done) rest
    | none => none
  | '\\' :: 'U' :: a :: b :: c :: d :: e :: f :: g :: h :: rest =>
    match codePoint? [a, b, c, d, e, f, g, h] with
    | some c => basicBlock 0 false (c :: done) rest
    | none => none
  | '\\' :: letter :: rest =>
    match escape? letter with
    | some c => basicBlock 0 false (c :: done) rest
    | none =>
      if hidesLineEnd (letter :: rest) then basicBlock 0 true done rest else none
  | c :: rest =>
    if c = '\\' then none
    else if trimming && (isBlank c || isLineEnd c) then basicBlock 0 true done rest
    else basicBlock 0 false (c :: done) rest
termination_by cs => cs.length

/-- A string of several lines up to its three single quotes, without escapes. -/
def literalBlock (quotes : Nat) (done : List Char) : List Char → Quoted
  | [] => none
  | '\'' :: '\'' :: '\'' :: '\'' :: rest =>
    if quotes < maxInnerQuotes then
      literalBlock (quotes + 1) ('\'' :: done) ('\'' :: '\'' :: '\'' :: rest)
    else none
  | '\'' :: '\'' :: '\'' :: rest => some (collected done, rest)
  | c :: rest => literalBlock 0 (c :: done) rest
termination_by cs => cs.length

/-- The text of a block without a line end right after its opening quotes. -/
def dropFirstLineEnd : List Char → List Char
  | '\n' :: rest => rest
  | '\r' :: '\n' :: rest => rest
  | cs => cs

/-- A string of any kind; `none` when the text starts with no quote or the string does not end. -/
def anyString : List Char → Quoted
  | '"' :: '"' :: '"' :: rest => basicBlock 0 false [] (dropFirstLineEnd rest)
  | '\'' :: '\'' :: '\'' :: rest => literalBlock 0 [] (dropFirstLineEnd rest)
  | '"' :: rest => basicString [] rest
  | '\'' :: rest => literalString [] rest
  | _ => none

/-! ### Scalars without quotes -/

/-- Whether every underscore stands after a digit, and the last character is one. -/
def underscoresOk (cs : List Char) : Bool :=
  let isDigit (c : Char) := (Text.Hex.digit? c).isSome
  (cs.zip (cs.drop 1)).all (fun (a, b) => b ≠ '_' || isDigit a) && cs.head? ≠ some '_' &&
    (cs.getLast?.map isDigit).getD false

/-- Whether a number starts with a zero that it does not need. -/
def hasLeadingZero : List Char → Bool
  | '0' :: _ :: _ => true
  | _ => false

/-- A whole number: decimal digits with a sign, or digits after a radix mark without one. -/
def integer? (cs : List Char) : Option Int :=
  let digits := Text.Decimal.dropSign cs
  let allowed := match cs with
    | '0' :: 'x' :: rest => rest.all fun c => (Text.Hex.digit? c).isSome || c = '_'
    | '0' :: 'o' :: rest | '0' :: 'b' :: rest => rest.all fun c => c.isDigit || c = '_'
    | _ => digits.all (fun c => c.isDigit || c = '_') && !hasLeadingZero digits
  if allowed && underscoresOk cs then
    (Text.Integer.literal (String.ofList cs)).toOption
  else none

/-- Whether a text is a number with a fraction, an exponent or both, or one of the special numbers. -/
def isFloat (cs : List Char) : Bool :=
  let unsigned := Text.Decimal.dropSign cs
  if unsigned = "inf".toList || unsigned = "nan".toList then true
  else
    let isMark (c : Char) := c = '.' || c = 'e' || c = 'E'
    let whole := unsigned.takeWhile (!isMark ·)
    let parts := ((String.ofList unsigned).split isMark).toList.map fun part => part.toString.toList
    let pointsOk := (unsigned.zip (unsigned.drop 1)).all fun (a, b) => a ≠ '.' || b.isDigit
    (whole.head?.map Char.isDigit).getD false && !hasLeadingZero whole && pointsOk &&
      unsigned.getLast? ≠ some '.' && parts.all (fun p => p.isEmpty || underscoresOk p) &&
      (Text.Decimal.unsigned? (unsigned.filter (· ≠ '_'))).any Text.Decimal.Reading.isFinite

/-- Whether a text is a date, a time, or both with or without a zone. Every number has two digits, and
seconds may be left out. -/
def isDate (cs : List Char) : Bool :=
  let cs := cs.map fun c => if c = 't' || c = ' ' then 'T' else if c = 'z' then 'Z' else c
  let isTime (zoned : Bool) (cs : List Char) :=
    (Text.Calendar.time? true true cs).any fun rest =>
      rest.isEmpty || (zoned && Text.Calendar.isZone rest)
  match Text.Calendar.date? true cs with
  | some [] => true
  | some (separator :: rest) => separator = 'T' && isTime true rest
  | none => isTime false cs

/-- A scalar that starts like a date: digits before a dash or a colon. -/
def startsLikeDate (cs : List Char) : Bool :=
  let rest := cs.dropWhile Char.isDigit
  rest.length < cs.length && (rest.head?.map fun c => c = '-' || c = ':').getD false

def bareScalar (cs : List Char) : Option (Value × List Char) :=
  if startsLikeDate cs then
    let isPart (c : Char) := c.isDigit || "-:Tt .Zz+".toList.contains c
    let text := ((cs.takeWhile isPart).reverse.dropWhile isBlank).reverse
    if isDate text then some (.date (String.ofList text), cs.dropWhile isPart) else none
  else
    let isPart (c : Char) := c.isAlphanum || "_+-.".toList.contains c
    let word := cs.takeWhile isPart
    let rest := cs.dropWhile isPart
    if word = "true".toList then some (.boolean true, rest)
    else if word = "false".toList then some (.boolean false, rest)
    else match integer? word with
      | some n => some (.integer n, rest)
      | none => if isFloat word then some (.float (String.ofList word), rest) else none

end Jvm.Toml
