import Jvm.Text.Calendar
import Jvm.Text.Integer

/-!
# How a reader takes plain scalars

A plain YAML scalar is not always a string: a reader may take it for a null, a truth value, a number
or a date, and older readers for a few things more. `readsAsString` says when none of this happens,
so that a text may be written without quotes.
-/

namespace Jvm.Document.Yaml

/-! ### Words -/

/-- Words for null, truth values and special numbers. -/
def reservedWords : List String :=
  ["", "~", "null", "Null", "NULL", "true", "True", "TRUE", "false", "False", "FALSE",
    ".nan", ".NaN", ".NAN", ".inf", ".Inf", ".INF", "+.inf", "+.Inf", "+.INF",
    "-.inf", "-.Inf", "-.INF"]

/-- Words that readers of the older standard take for truth values. -/
def olderTruthWords : List String :=
  ["y", "Y", "yes", "Yes", "YES", "on", "On", "ON", "n", "N", "no", "No", "NO", "off", "Off", "OFF"]

/-! ### Numbers -/

/-- Whether digits of a base, after an optional sign, make a 64-bit integer. -/
def isIntegerIn (base : Nat) (cs : List Char) : Bool :=
  (Text.Integer.signed (Text.Integer.unsignedIn base) cs).isOk ||
    (Text.Integer.unsignedIn base cs).isOk

/-- Whether a text without underscores is an integer. After the binary and octal marks a sign may
stand; before them a minus. -/
def isInteger (cs : List Char) : Bool :=
  (Text.Integer.signed Text.Integer.unsignedLiteral cs).isOk ||
    (Text.Integer.unsignedLiteral cs).isOk ||
    match cs with
    | '0' :: 'b' :: digits => isIntegerIn 2 digits
    | '0' :: 'o' :: digits => isIntegerIn 8 digits
    | _ => false

/-- Whether a text is a decimal fraction with a finite value. -/
def isDecimal (cs : List Char) : Bool :=
  match Text.Decimal.unsigned? (Text.Decimal.dropSign cs) with
  | some reading => reading.isFinite
  | none => false

/-- Whether a text that starts with a point is a fraction; underscores may stand between its
digits. -/
def isPointDecimal (cs : List Char) : Bool :=
  let digitPairs := (cs.zip (cs.drop 1)).all fun (a, b) =>
    (a ≠ '_' || b.isDigit) && (b ≠ '_' || a.isDigit)
  digitPairs && cs.getLast? ≠ some '_' && isDecimal (cs.filter (· ≠ '_'))

/-- Whether a text is a number in base sixty: digits, then groups of at most 59 after colons. -/
def isSexagesimal (s : String) : Bool :=
  match (String.ofList (Text.Decimal.dropSign s.toList)).splitOn ":" with
  | first :: group :: groups =>
    let all := group :: groups
    let last := (all.getLastD "").toList
    isLeading first.toList && all.dropLast.all (fun g => isGroup g.toList) &&
      isGroup (last.takeWhile (· ≠ '.')) &&
      ((last.dropWhile (· ≠ '.')).drop 1).all fun c => c.isDigit || c = '_'
  | _ => false
where
  isLeading : List Char → Bool
    | [] => false
    | c :: rest => c.isDigit && rest.all fun c => c.isDigit || c = '_'
  isGroup : List Char → Bool
    | [a] => a.isDigit
    | [a, b] => '0' ≤ a && a ≤ '5' && b.isDigit
    | _ => false

/-! ### Dates -/

/-- Whether a text is a date, a date and a time with a zone after `T`, or a date and a time without
a zone after blanks. -/
def isTimestamp (cs : List Char) : Bool :=
  match Text.Calendar.date? false cs with
  | none => false
  | some [] => true
  | some (separator :: rest) =>
    if separator = 'T' || separator = 't' then
      (Text.Calendar.time? false false rest).any Text.Calendar.isZone
    else if separator = ' ' then
      (Text.Calendar.time? false false (rest.dropWhile (· = ' '))).any List.isEmpty
    else false

/-! ### Strings -/

/-- Whether a reader takes the plain text for a string, under the present and the older standard. -/
def readsAsString (s : String) : Bool :=
  if reservedWords.contains s || olderTruthWords.contains s then false
  else match s.toList with
    | [] => false
    | c :: rest =>
      if c = '.' then !isPointDecimal (c :: rest)
      else if c.isDigit || c = '+' || c = '-' then
        let plain := (c :: rest).filter (· ≠ '_')
        !(isTimestamp (c :: rest) || isInteger plain || isDecimal plain || isSexagesimal s)
      else true

end Jvm.Document.Yaml
