/-!
# Documents

The tree that the structured reports are written from: texts, numbers, lists and records with named
fields in a fixed order. The printers for single formats are modules of their own.
-/

namespace Jvm

inductive Document where
  | text (value : String)
  | number (value : Nat)
  | list (items : List Document)
  | record (fields : List (String × Document))
  deriving Repr, Inhabited

namespace Document

def texts (values : List String) : Document := .list (values.map .text)

/-- A field that is left out when its text is empty. -/
def textField? (key value : String) : List (String × Document) :=
  if value = "" then [] else [(key, .text value)]

/-- A field that is left out when its list is empty. -/
def listField? (key : String) (items : List Document) : List (String × Document) :=
  if items.isEmpty then [] else [(key, .list items)]

end Document

end Jvm
