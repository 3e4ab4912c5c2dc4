import StagedAnalysis.Checking.Statement
/-!
Checking whole programs, one or several in a row.
-/
namespace StagedAnalysis

/-- A checker whose scopes and reports outlast a program. In strict mode an int never goes where a
float is wanted. -/
structure Analyzer where
  scopes : ScopeTable
  errors : List AnalysisError
  strict : Bool
  deriving DecidableEq

namespace Analyzer

def initial (strict : Bool) : Analyzer :=
  ⟨.outermost, [], strict⟩

/-- Checks a program behind what was checked before. -/
def analyze (analyzer : Analyzer) (program : Program) : Analyzer :=
  let (scopes, errors) := Statement.checkAll (!analyzer.strict) analyzer.scopes program.statements
  { analyzer with scopes := scopes, errors := analyzer.errors ++ errors }

def firstError? (analyzer : Analyzer) : Option AnalysisError :=
  analyzer.errors.head?

def clearErrors (analyzer : Analyzer) : Analyzer :=
  { analyzer with errors := [] }

end Analyzer

def Program.check (program : Program) (strict : Bool) : List AnalysisError :=
  ((Analyzer.initial strict).analyze program).errors

end StagedAnalysis
