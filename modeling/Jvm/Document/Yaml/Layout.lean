import Jvm.Document.Basic
import Jvm.Document.Yaml.Scalar

/-!
# YAML

Documents in block style, indented by two columns a level. The items of a list stand two columns to
the right of its key.
-/

namespace Jvm.Document.Yaml

/-- Ends the line of a text, unless the text has ended it. -/
def endLine (s : String) : String :=
  if (s.back?.map isBreak).getD false then s else s ++ "\n"

/-- The parts of a column of entries: each but the last has its line ended, and the next one starts at
the column. -/
def stackedParts (column : Nat) : List String → List String
  | [] => []
  | [entry] => [entry]
  | entry :: rest => endLine entry :: pad column :: stackedParts column rest

/-- Entries one below the other at a column, the first of them where the line stands. -/
def stacked (column : Nat) (entries : List String) : String :=
  String.join (stackedParts column entries)

mutual

def node (column : Nat) : Document → String
  | .text value => scalar column value
  | .number value => toString value
  | .list [] => "[]"
  | .list (item :: rest) => stacked column (items column (item :: rest))
  | .record fields => stacked column (members column fields)

def items (column : Nat) : List Document → List String
  | [] => []
  | item :: rest => ("- " ++ node (column + 2) item) :: items column rest

/-- The fields of a record at a column. Lists and records start on a line of their own. -/
def members (column : Nat) : List (String × Document) → List String
  | [] => []
  | (key, value) :: rest =>
    let separator := match value with
      | .text _ | .number _ | .list [] => " "
      | .list (_ :: _) | .record _ => "\n" ++ pad (column + 2)
    (key ++ ":" ++ separator ++ node (column + 2) value) :: members column rest

end

def render (d : Document) : String := endLine (node 0 d)

end Jvm.Document.Yaml
