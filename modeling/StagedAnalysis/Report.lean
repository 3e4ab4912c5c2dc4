import StagedAnalysis.Diagnostic
/-!
The result of an analysis: whether the last stage passed, which stages did, what was found, and a
transcript with one entry for each stage that ran.
-/
namespace StagedAnalysis

structure Report where
  success : Bool
  /-- The last stage that ran. -/
  stage? : Option Stage
  passed : List Stage
  tokenCount : UInt64
  diagnostics : List Diagnostic
  summary : List String
  deriving DecidableEq

namespace Report

def errorCount (report : Report) : Nat :=
  report.diagnostics.countP (·.isError)

def warningCount (report : Report) : Nat :=
  report.diagnostics.length - report.errorCount

/-- The transcript, an empty line behind each entry, and then the diagnostics line by line. -/
def text (report : Report) : String :=
  String.join (report.summary.map (· ++ "\n\n"))
    ++ String.join (report.diagnostics.map fun diagnostic => diagnostic.text ++ "\n")

theorem errorCount_le (report : Report) : report.errorCount ≤ report.diagnostics.length :=
  List.countP_le_length

end Report

end StagedAnalysis
