import StagedAnalysis.Json.Library
import StagedAnalysis.Report
/-!
Reports as JSON: what their records declare, and the texts that a library gives for them.

A record is an object with its fields in a fixed order. An absent suggestion is left out of its
diagnostic; a missing stage is written like any other option.
-/
namespace StagedAnalysis

namespace Stage

def codec (library : Json.Library) : Json.Codec Stage :=
  library.variants name all

def toJson (stage : Stage) : Json :=
  .string stage.name

end Stage

namespace Severity

def codec (library : Json.Library) : Json.Codec Severity :=
  library.variants name all

def toJson (severity : Severity) : Json :=
  .string severity.name

end Severity

namespace Diagnostic

abbrev Values : Type :=
  Stage × Severity × String × String × UInt32 × UInt32 × Option String × Unit

def ofValues : Values → Diagnostic
  | (stage, severity, code, message, line, column, suggestion?, ()) =>
    ⟨stage, severity, code, message, line, column, suggestion?⟩

def fields (library : Json.Library) : Json.Fields Diagnostic Values :=
  .always "kind" (Stage.codec library) stage <|
  .always "severity" (Severity.codec library) severity <|
  .always "code" library.string code <|
  .always "message" library.string message <|
  .always "line" library.uint32 line <|
  .always "column" library.uint32 column <|
  .cons "suggestion" (library.option library.string) suggestion? Option.isNone .nil

def codec (library : Json.Library) : Json.Codec Diagnostic :=
  library.record (fields library) ofValues

def toJson (diagnostic : Diagnostic) : Json :=
  .object
    ([("kind", diagnostic.stage.toJson),
      ("severity", diagnostic.severity.toJson),
      ("code", .string diagnostic.code),
      ("message", .string diagnostic.message),
      ("line", .nat diagnostic.line.toNat),
      ("column", .nat diagnostic.column.toNat)]
    ++ (diagnostic.suggestion?.map fun hint => ("suggestion", Json.string hint)).toList)

end Diagnostic

namespace Report

abbrev Values : Type :=
  Bool × Option Stage × List Stage × UInt64 × List Diagnostic × List String × Unit

def ofValues : Values → Report
  | (success, stage?, passed, tokenCount, diagnostics, summary, ()) =>
    ⟨success, stage?, passed, tokenCount, diagnostics, summary⟩

def fields (library : Json.Library) : Json.Fields Report Values :=
  .always "success" library.bool success <|
  .always "stage" (library.option (Stage.codec library)) stage? <|
  .always "passed" (library.list (Stage.codec library)) passed <|
  .always "token_count" library.uint64 tokenCount <|
  .always "diagnostics" (library.list (Diagnostic.codec library)) diagnostics <|
  .always "summary" (library.list library.string) summary .nil

def codec (library : Json.Library) : Json.Codec Report :=
  library.record (fields library) ofValues

/-- The document that every library writes for a report. -/
def toJson (report : Report) : Json :=
  .object
    [("success", .bool report.success),
      ("stage", .ofOption Stage.toJson report.stage?),
      ("passed", .array (report.passed.map Stage.toJson)),
      ("token_count", .nat report.tokenCount.toNat),
      ("diagnostics", .array (report.diagnostics.map Diagnostic.toJson)),
      ("summary", .strings report.summary)]

/-- The report over several lines, or an empty object should the library refuse to write it. -/
def pretty (library : Json.Library) (report : Report) : String :=
  (library.pretty? (codec library) report).getD "\x7b\x7d"

def compact (library : Json.Library) (report : Report) : String :=
  (library.compact? (codec library) report).getD "\x7b\x7d"

def ofJson? (json : Json) : Option Report :=
  (codec .builtIn).read? json

end Report

end StagedAnalysis
