import Jvm.Report.Summary

/-!
# The line report

One record a line, with columns separated by tabs, and the listing of a method indented below it.
-/

namespace Jvm.ClassSummary

/-- A list in one column: `-` when it is empty. -/
def column (items : List String) : String :=
  if items.isEmpty then "-" else ",".intercalate items

def recordLine (columns : List String) : String := "\t".intercalate columns ++ "\n"

def codeLines (c : CodeSummary) : List String :=
  c.instructions.map (fun text => recordLine ["", text]) ++
    (c.halt?.map fun address => recordLine ["", s!"{address}: <unsupported>"]).toList

def constantLine (c : ConstantSummary) : String :=
  recordLine ["const", s!"#{c.index.toNat}", c.tag.name, c.value]

def fieldLine (f : FieldSummary) : String := recordLine ["field", f.name, f.type, column f.flags]

def methodLines (m : MethodSummary) : List String :=
  recordLine ["method", m.name, m.returnType, column m.parameters, column m.flags] ::
    (m.code?.map codeLines).getD []

def lines (c : ClassSummary) : List String :=
  recordLine [c.kind, c.name, column c.flags, s!"{c.major.toNat}.{c.minor.toNat}"] ::
    ((if c.superName = "" then [] else [recordLine ["super", c.superName]]) ++
      c.interfaces.map (fun name => recordLine ["implements", name]) ++
      c.constants.map constantLine ++
      c.fields.map fieldLine ++
      c.methods.flatMap methodLines)

def lineReport (c : ClassSummary) : String := String.join c.lines

end Jvm.ClassSummary
