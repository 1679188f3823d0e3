import Jvm.Document.Basic
import Jvm.Text.Hex

/-!
# JSON

Documents as indented JSON. A list without items is `null`. The characters that would be special
inside a web page, and the two Unicode line separators, are escaped like control characters.
-/

namespace Jvm.Document.Json

def escapeChar (c : Char) : String :=
  match c with
  | '"' => "\\\""
  | '\\' => "\\\\"
  | '\x08' => "\\b"
  | '\x0c' => "\\f"
  | '\n' => "\\n"
  | '\r' => "\\r"
  | '\t' => "\\t"
  | _ =>
    if c.toNat < 0x20 || c = '<' || c = '>' || c = '&' || c.toNat = 0x2028 || c.toNat = 0x2029 then
      "\\u" ++ Text.Hex.lower 4 c.toNat
    else String.singleton c

def string (s : String) : String := "\"" ++ String.join (s.toList.map escapeChar) ++ "\""

/-- The start of a line at a nesting depth: two blanks a level. -/
def newline (depth : Nat) : String := "\n" ++ String.ofList (List.replicate (2 * depth) ' ')

/-- The parts of a list or record between its brackets, one a line. -/
def bracketed (depth : Nat) (opening closing : String) (parts : List String) : String :=
  opening ++ newline (depth + 1) ++ ("," ++ newline (depth + 1)).intercalate parts ++
    newline depth ++ closing

mutual

/-- A document whose first line stands at a nesting depth. -/
def node (depth : Nat) : Document → String
  | .text value => string value
  | .number value => toString value
  | .list [] => "null"
  | .list (item :: rest) => bracketed depth "[" "]" (nodes (depth + 1) (item :: rest))
  | .record fields => bracketed depth "\x7b" "\x7d" (members (depth + 1) fields)

def nodes (depth : Nat) : List Document → List String
  | [] => []
  | item :: rest => node depth item :: nodes depth rest

def members (depth : Nat) : List (String × Document) → List String
  | [] => []
  | (key, value) :: rest => (string key ++ ": " ++ node depth value) :: members depth rest

end

def render (d : Document) : String := node 0 d ++ "\n"

end Jvm.Document.Json
