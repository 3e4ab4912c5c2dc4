import StagedAnalysis.Source.Position
import StagedAnalysis.Stage
/-!
Everything that an analysis can find wrong, each with its cause, its code, its message and its
place. All but the last two belong to one of the stages; those two say that a stage may not run at
all.
-/
namespace StagedAnalysis

inductive AnalysisError where
  | unknownCharacter (character : Char) (span : Span)
  | unterminatedString (lexeme : String) (span : Span)
  | malformedNumber (lexeme : String) (span : Span)
  | unterminatedComment (span : Span)
  | unexpectedToken (expected got : String) (span : Span)
  | expectedExpression (got : String) (span : Span)
  | expectedIdentifier (got : String) (span : Span)
  | trailingInput (got : String) (span : Span)
  | nestingTooDeep (limit : Nat) (span : Span)
  | expressionTooLong (limit : Nat) (span : Span)
  | duplicateDeclaration (name : String) (previous span : Span)
  | typeMismatch (expected got : String) (span : Span)
  | undefinedVariable (name : String) (span : Span)
  | stageOrder (stage requires : Stage)
  | emptySource
  deriving DecidableEq

namespace AnalysisError

def span? : AnalysisError → Option Span
  | unknownCharacter _ span
  | unterminatedString _ span
  | malformedNumber _ span
  | unterminatedComment span
  | unexpectedToken _ _ span
  | expectedExpression _ span
  | expectedIdentifier _ span
  | trailingInput _ span
  | nestingTooDeep _ span
  | expressionTooLong _ span
  | duplicateDeclaration _ _ span
  | typeMismatch _ _ span
  | undefinedVariable _ span => some span
  | stageOrder _ _ | emptySource => none

def stage? : AnalysisError → Option Stage
  | unknownCharacter _ _
  | unterminatedString _ _
  | malformedNumber _ _
  | unterminatedComment _ => some .lexical
  | unexpectedToken _ _ _
  | expectedExpression _ _
  | expectedIdentifier _ _
  | trailingInput _ _
  | nestingTooDeep _ _
  | expressionTooLong _ _ => some .syntactic
  | duplicateDeclaration _ _ _
  | typeMismatch _ _ _
  | undefinedVariable _ _ => some .semantic
  | stageOrder _ _ | emptySource => none

def code : AnalysisError → String
  | unknownCharacter _ _ => "L001"
  | unterminatedString _ _ => "L002"
  | malformedNumber _ _ => "L003"
  | unterminatedComment _ => "L004"
  | unexpectedToken _ _ _ => "S001"
  | expectedExpression _ _ => "S002"
  | expectedIdentifier _ _ => "S003"
  | trailingInput _ _ => "S004"
  | nestingTooDeep _ _ => "S005"
  | expressionTooLong _ _ => "S006"
  | duplicateDeclaration _ _ _ => "M001"
  | typeMismatch _ _ _ => "M002"
  | undefinedVariable _ _ => "M003"
  | stageOrder _ _ => "P001"
  | emptySource => "P002"

def message : AnalysisError → String
  | unknownCharacter character _ => s!"Unknown character '{character}'"
  | unterminatedString lexeme _ => s!"Unterminated string literal {lexeme}"
  | malformedNumber lexeme _ => s!"Malformed number literal '{lexeme}'"
  | unterminatedComment _ => "Unterminated block comment"
  | unexpectedToken expected got _ => s!"Unexpected token: expected {expected}, got {got}"
  | expectedExpression got _ => s!"Expected expression, got {got}"
  | expectedIdentifier got _ => s!"Expected identifier, got {got}"
  | trailingInput got _ => s!"Trailing input: unexpected {got} after end of program"
  | nestingTooDeep limit _ => s!"Nesting deeper than {limit} levels"
  | expressionTooLong limit _ => s!"Expression has more than {limit} operators"
  | duplicateDeclaration name previous _ =>
    s!"Duplicate declaration: '{name}' is already declared in this scope (at {previous.text})"
  | typeMismatch expected got _ => s!"Type mismatch: expected {expected}, got {got}"
  | undefinedVariable name _ => s!"Use of undeclared variable '{name}'"
  | stageOrder stage requires =>
    s!"{stage.name} analysis requires {requires.name} analysis to pass first"
  | emptySource => "Source text is empty"

/-- A warning is reported but does not fail its stage. -/
def isWarning : AnalysisError → Bool
  | unterminatedComment _ => true
  | _ => false

theorem stage?_eq_none_iff {error : AnalysisError} :
    error.stage? = none ↔ error.span? = none := by
  cases error <;> simp [stage?, span?]

end AnalysisError

end StagedAnalysis
