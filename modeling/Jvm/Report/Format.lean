import Jvm.Document.Cbor
import Jvm.Document.Json
import Jvm.Document.Yaml.Layout
import Jvm.Report.Disassembly
import Jvm.Report.Lines

/-!
# Report formats

The formats in which a class file can be shown, and the one entry point for all of them.
-/

namespace Jvm

inductive ReportFormat where
  | line
  | json
  | yaml
  | cbor
  | disasm
  deriving Repr, DecidableEq

namespace ReportFormat

def all : List ReportFormat := [line, json, yaml, cbor, disasm]

def name : ReportFormat → String
  | line => "line"
  | json => "json"
  | yaml => "yaml"
  | cbor => "cbor"
  | disasm => "disasm"

def ofName (s : String) : Except Fault ReportFormat :=
  match all.find? (·.name == s) with
  | some f => .ok f
  | none =>
    let names := ", ".intercalate (all.map name)
    .error (.plain s!"unknown format: {s} (expected {names})")

end ReportFormat

/-- What a report consists of: text, or bytes in a binary format. -/
inductive Report where
  | text (content : String)
  | binary (content : Bytes)
  deriving Repr, DecidableEq

def Report.bytes : Report → Bytes
  | text content => content.toUTF8.toList
  | binary content => content

def ClassFile.report (c : ClassFile) : ReportFormat → Except Fault Report
  | .disasm => do return .text (← c.disassembly)
  | .line => do return .text (← ClassSummary.ofClassFile c).lineReport
  | .json => do return .text (Document.Json.render (← ClassSummary.ofClassFile c).document)
  | .yaml => do return .text (Document.Yaml.render (← ClassSummary.ofClassFile c).document)
  | .cbor => do return .binary (Document.Cbor.render (← ClassSummary.ofClassFile c).document)

end Jvm
