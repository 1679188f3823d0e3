import Jvm.Bytes
import Jvm.Toml.Lexeme

/-!
# Reading TOML

A document is a sequence of lines that each give a key its value or start a table. Arrays and inline
tables may run over several lines.
-/

namespace Jvm.Toml

/-! ### Keys -/

def isKeyChar (c : Char) : Bool := c.isAlphanum || c = '_' || c = '-'

def keyPart (cs : List Char) : Option (String × List Char) :=
  match cs with
  | '"' :: rest => basicString [] rest
  | '\'' :: rest => literalString [] rest
  | _ =>
    let name := cs.takeWhile isKeyChar
    if name.isEmpty then none else some (String.ofList name, cs.dropWhile isKeyChar)

/-- A key: parts with points between them, and blanks around both. -/
def key : Nat → List Char → Option (List String × List Char)
  | 0, _ => none
  | fuel + 1, cs => do
    let (part, rest) ← keyPart (skipBlanks cs)
    match skipBlanks rest with
    | '.' :: more =>
      let (parts, rest) ← key fuel more
      return (part :: parts, rest)
    | rest => return ([part], rest)

/-! ### Values -/

mutual

def value : Nat → List Char → Option (Value × List Char)
  | 0, _ => none
  | fuel + 1, cs =>
    match skipBlanks cs with
    | [] => none
    | c :: rest =>
      if c = '[' then do
        let (values, rest) ← arrayItems fuel rest
        return (.array values, rest)
      else if c = '\x7b' then do
        let (entries, rest) ← inlineEntries fuel rest
        let table ← Draft.inlineTable entries
        return (.table table, rest)
      else if c = '"' || c = '\'' then
        (anyString (c :: rest)).map fun (s, rest) => (.string s, rest)
      else bareScalar (c :: rest)

def arrayItems : Nat → List Char → Option (List Value × List Char)
  | 0, _ => none
  | fuel + 1, cs =>
    match skipLines false cs with
    | ']' :: rest => some ([], rest)
    | start => do
      let (item, rest) ← value fuel start
      match skipLines false rest with
      | ']' :: rest => return ([item], rest)
      | ',' :: rest =>
        let (others, rest) ← arrayItems fuel rest
        return (item :: others, rest)
      | _ => none

/-- The entries of an inline table up to its closing brace. -/
def inlineEntries : Nat → List Char → Option (List (List String × Value) × List Char)
  | 0, _ => none
  | fuel + 1, cs =>
    match skipLines false cs with
    | '\x7d' :: rest => some ([], rest)
    | start => do
      let (path, rest) ← key start.length start
      match rest with
      | '=' :: rest =>
        let (v, rest) ← value fuel rest
        match skipLines false rest with
        | '\x7d' :: rest => return ([(path, v)], rest)
        | ',' :: rest =>
          let (others, rest) ← inlineEntries fuel rest
          return ((path, v) :: others, rest)
        | _ => none
      | _ => none

end

/-! ### Lines -/

inductive Line where
  | assignment (path : List String) (v : Value)
  | tableHeader (path : List String)
  | elementHeader (path : List String)

def line (cs : List Char) : Option (Line × List Char) := do
  let fuel := 2 * cs.length + 2
  match cs with
  | '[' :: '[' :: rest =>
    let (path, rest) ← key fuel rest
    match rest with
    | ']' :: ']' :: rest => return (.elementHeader path, rest)
    | _ => none
  | '[' :: rest =>
    let (path, rest) ← key fuel rest
    match rest with
    | ']' :: rest => return (.tableHeader path, rest)
    | _ => none
  | _ =>
    let (path, rest) ← key fuel cs
    match rest with
    | '=' :: rest =>
      let (v, rest) ← value fuel rest
      return (.assignment path v, rest)
    | _ => none

/-- The lines of a document. After each there is nothing but blanks, a comment and a line end. -/
def lines : Nat → List Char → Option (List Line)
  | 0, _ => none
  | fuel + 1, cs =>
    match skipLines false cs with
    | [] => some []
    | start => do
      let (first, rest) ← line start
      let rest := skipBlanks rest
      let ended := (rest.head?.map fun c => c = '#' || isLineEnd c).getD true
      if ended then return first :: (← lines fuel rest) else none

/-- Adds a line to a draft in which the table at `context` was started last. -/
def Draft.add (d : Draft) (context : List String) : Line → Option (Draft × List String)
  | .assignment path v => do return (← d.assign context path v, context)
  | .tableHeader path => do return (← d.openTable path, path)
  | .elementHeader path => do return (← d.openElement path, path)

def ofText (text : String) : Option Table := do
  let cs := text.toList
  if isWellFormed cs then
    let ls ← lines (cs.length + 1) cs
    let (d, _) ← ls.foldlM (fun (d, context) l => d.add context l) (Draft.empty, [])
    return d.root
  else none

/-- The bytes of a document without a mark of its encoding. -/
def dropEncodingMark : Bytes → Bytes
  | 0xff :: 0xfe :: rest | 0xfe :: 0xff :: rest => rest
  | 0xef :: 0xbb :: 0xbf :: rest => rest
  | bytes => bytes

def parse (data : Bytes) : Option Table := do
  let text ← String.fromUTF8? ⟨(dropEncodingMark data).toArray⟩
  ofText text

end Jvm.Toml
