import StagedAnalysis.AnalysisError
/-!
Diagnostics: faults in the form in which they are shown and handed on, with a suggestion where a
common mistake has an obvious remedy.
-/
namespace StagedAnalysis

inductive Severity where
  | error
  | warning
  deriving DecidableEq

namespace Severity

def all : List Severity := [error, warning]

def name : Severity → String
  | error => "error"
  | warning => "warning"

theorem find?_name (severity : Severity) : all.find? (·.name == severity.name) = some severity := by
  cases severity <;> decide

end Severity

structure Diagnostic where
  stage : Stage
  severity : Severity
  code : String
  message : String
  /-- The line counted from one; zero where there is no place. -/
  line : UInt32
  column : UInt32
  suggestion? : Option String
  deriving DecidableEq

namespace AnalysisError

def severity (error : AnalysisError) : Severity :=
  if error.isWarning then .warning else .error

def suggestion? : AnalysisError → Option String
  | unterminatedString _ _ => some "add the closing '\"' on the same line"
  | unterminatedComment _ => some "close the comment with '*/'"
  | unknownCharacter character _ =>
    if character = '&' then some "use '&&' for logical and"
    else if character = '|' then some "use '||' for logical or"
    else none
  | malformedNumber _ _ => some "identifiers cannot start with a digit"
  | expectedExpression _ _ => some "insert a value or variable here"
  | expressionTooLong _ _ => some "split the expression using intermediate variables"
  | duplicateDeclaration name _ _ => some s!"rename the second '{name}' or assign to it instead"
  | undefinedVariable name _ => some s!"declare '{name}' before using it"
  | typeMismatch expected got _ =>
    if expected = "int" ∧ got = "float" then
      some "a float value cannot be stored in an int variable"
    else none
  | _ => none

/-- The fault as a diagnostic. Its stage is its own, or `stage` where it has none. -/
def diagnostic (error : AnalysisError) (stage : Stage) : Diagnostic where
  stage := error.stage?.getD stage
  severity := error.severity
  code := error.code
  message := error.message
  line := UInt32.ofNat ((error.span?.map (·.line)).getD 0)
  column := UInt32.ofNat ((error.span?.map (·.column)).getD 0)
  suggestion? := error.suggestion?

end AnalysisError

namespace Diagnostic

def isError (diagnostic : Diagnostic) : Bool :=
  diagnostic.severity == .error

/-- One line for people: severity and code, place, message, suggestion. -/
def text (diagnostic : Diagnostic) : String :=
  let place :=
    if 0 < diagnostic.line then s!" {diagnostic.line.toNat}:{diagnostic.column.toNat}" else ""
  let hint := (diagnostic.suggestion?.map fun hint => s!" (hint: {hint})").getD ""
  s!"{diagnostic.severity.name}[{diagnostic.code}]{place}: {diagnostic.message}{hint}"

end Diagnostic

end StagedAnalysis
