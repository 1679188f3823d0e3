import Jvm.Text.Hex
import Jvm.Text.Printable

/-!
# Quoted text

A string between double quotes, or a character between single ones, with the quote, the backslash and
every character that is not printable escaped.
-/

namespace Jvm.Text

def quoteChar (quote c : Char) : String :=
  if c = quote || c = '\\' then "\\" ++ String.singleton c
  else if isPrintable c then String.singleton c
  else match c.toNat with
    | 0x07 => "\\a"
    | 0x08 => "\\b"
    | 0x0c => "\\f"
    | 0x0a => "\\n"
    | 0x0d => "\\r"
    | 0x09 => "\\t"
    | 0x0b => "\\v"
    | n =>
      if n < 0x80 then "\\x" ++ Hex.lower 2 n
      else if n < 0x10000 then "\\u" ++ Hex.lower 4 n
      else "\\U" ++ Hex.lower 8 n

def quoted (s : String) : String :=
  "\"" ++ String.join (s.toList.map (quoteChar '"')) ++ "\""

def quotedChar (c : Char) : String := "'" ++ quoteChar '\'' c ++ "'"

end Jvm.Text
