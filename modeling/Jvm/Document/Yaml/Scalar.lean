import Jvm.Document.Yaml.Resolution

/-!
# YAML scalars

The four ways to write a text: plain, between single quotes, between double quotes, and as a literal
block. A text with line feeds is a literal block if it can be; a text that a plain reader would take
for something else stands between double quotes; any other text is plain if it can be, otherwise
between single quotes, and as a last resort between double quotes.
-/

namespace Jvm.Document.Yaml

/-! ### Characters -/

def isWritable (c : Char) : Bool :=
  let n := c.toNat
  n = 0x0a || (0x20 ≤ n && n ≤ 0x7e) || (0xa0 ≤ n && n ≤ 0xd7ff) ||
    (0xe000 ≤ n && n ≤ 0xfffd && n ≠ 0xfeff)

def isBreak (c : Char) : Bool :=
  let n := c.toNat
  n = 0x0a || n = 0x0d || n = 0x85 || n = 0x2028 || n = 0x2029

def isBlank (c : Char) : Bool := c = ' ' || c = '\t'

def anyPair (p : Char → Char → Bool) (cs : List Char) : Bool :=
  (cs.zip (cs.drop 1)).any fun pair => p pair.1 pair.2

def hasBreak (cs : List Char) : Bool := cs.any isBreak

/-- Whether the text has a character, other than a tab, that needs an escape. -/
def hasSpecial (cs : List Char) : Bool := cs.any fun c => c ≠ '\t' && !isWritable c

def hasBlankBeforeBreak (cs : List Char) : Bool := anyPair (fun a b => a = ' ' && isBreak b) cs

def hasBlankAfterBreak (cs : List Char) : Bool := anyPair (fun a b => isBreak a && b = ' ') cs

/-! ### Choice of a style -/

/-- Whether the first character of the text would be taken for a mark of the format. -/
def startsLikeMark : List Char → Bool
  | [] => false
  | c :: rest =>
    "#,[]\x7b\x7d&*!|>'\"%@`".toList.contains c ||
      ((c = '?' || c = ':' || c = '-') && (rest.head?.map isBlank).getD true) ||
      (c = '-' && rest.take 2 = ['-', '-']) || (c = '.' && rest.take 2 = ['.', '.'])

/-- Whether a mark of the format stands inside the text: a colon before a blank or the end, or a hash
after a blank. -/
def holdsMark (cs : List Char) : Bool :=
  anyPair (fun a b => a = ':' && isBlank b) cs || cs.getLast? = some ':' ||
    anyPair (fun a b => b = '#' && (isBlank a || isBreak a || a.toNat = 0)) cs

def hasOuterBlank (cs : List Char) : Bool :=
  let outer (c : Option Char) := (c.map fun c => c = ' ' || isBreak c).getD false
  outer cs.head? || outer cs.getLast?

def singleQuotable (cs : List Char) : Bool :=
  !(hasBlankAfterBreak cs || hasBlankBeforeBreak cs || cs.contains '\t' || hasSpecial cs)

def plainAllowed (cs : List Char) : Bool :=
  singleQuotable cs && !(hasOuterBlank cs || hasBreak cs || startsLikeMark cs || holdsMark cs)

def blockAllowed (cs : List Char) : Bool :=
  !cs.isEmpty && cs.getLast? ≠ some ' ' && !(hasBlankBeforeBreak cs || hasSpecial cs)

/-! ### Styles -/

def pad (column : Nat) : String := String.ofList (List.replicate column ' ')

/-- The characters of a text whose lines stand at a column; a line starts at its first character that
is no break. -/
def indented (column : Nat) : Bool → List Char → List String
  | _, [] => []
  | lineStart, c :: rest =>
    if isBreak c then String.singleton c :: indented column true rest
    else if lineStart then pad column :: String.singleton c :: indented column false rest
    else String.singleton c :: indented column false rest

/-- The text between single quotes, with a quote written twice. -/
def singleQuoted (column : Nat) (cs : List Char) : String :=
  let doubled := cs.flatMap fun c => if c = '\'' then ['\'', '\''] else [c]
  "'" ++ String.join (indented column false doubled) ++ "'"

def escapeChar (c : Char) : String :=
  match c.toNat with
  | 0x00 => "\\0"
  | 0x07 => "\\a"
  | 0x08 => "\\b"
  | 0x09 => "\\t"
  | 0x0a => "\\n"
  | 0x0b => "\\v"
  | 0x0c => "\\f"
  | 0x0d => "\\r"
  | 0x1b => "\\e"
  | 0x22 => "\\\""
  | 0x5c => "\\\\"
  | 0x85 => "\\N"
  | 0x2028 => "\\L"
  | 0x2029 => "\\P"
  | n =>
    if isWritable c then String.singleton c
    else if n ≤ 0xff then "\\x" ++ Text.Hex.upper 2 n
    else if n ≤ 0xffff then "\\u" ++ Text.Hex.upper 4 n
    else "\\U" ++ Text.Hex.upper 8 n

def doubleQuoted (cs : List Char) : String := "\"" ++ String.join (cs.map escapeChar) ++ "\""

/-- The mark that says what becomes of the breaks at the end of a block. -/
def chomping (cs : List Char) : String :=
  match cs.reverse with
  | [] => "-"
  | last :: before =>
    if !isBreak last then "-"
    else match before with
      | [] => "+"
      | c :: _ => if isBreak c then "+" else ""

/-- The text as a block whose lines stand at a column. A block that starts with a blank or a break
says its indentation; a break at its start also ends the line of the mark. -/
def literalBlock (column : Nat) (cs : List Char) : String :=
  let startsBlank := (cs.head?.map fun c => c = ' ' || isBreak c).getD false
  let startsBreak := (cs.head?.map isBreak).getD false
  "|" ++ (if startsBlank then "2" else "") ++ chomping cs ++ (if startsBreak then "" else "\n") ++
    String.join (indented column true cs)

/-- A text as a scalar; the lines of a longer one stand at a column. -/
def scalar (column : Nat) (s : String) : String :=
  let cs := s.toList
  if cs.contains '\n' then
    if blockAllowed cs then literalBlock column cs else doubleQuoted cs
  else if !readsAsString s then doubleQuoted cs
  else if plainAllowed cs then s
  else if singleQuotable cs then singleQuoted column cs
  else doubleQuoted cs

end Jvm.Document.Yaml
