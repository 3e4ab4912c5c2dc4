import StagedAnalysis.Parsing.State
import StagedAnalysis.Program
import StagedAnalysis.Scope
/-!
Relocations: other places for the same things.

A relocation moves every range that a token, a tree, a scope or a fault has, and leaves everything
else as it is. It has to respect the merging of ranges, since that is how the range of a tree comes
from the ranges of its tokens. Nothing else that an analysis does looks into a range.
-/
namespace StagedAnalysis

structure Relocation where
  move : Span → Span
  move_merge : ∀ left right : Span, move (left.merge right) = (move left).merge (move right)

/-- Moves every range to the origin, so that two things that it makes equal differ in their places
alone. -/
def Relocation.collapse : Relocation :=
  ⟨fun _ => .origin, fun _ _ => rfl⟩

variable (relocation : Relocation)

/-! ### Tokens and faults -/

def Token.relocate (token : Token) : Token :=
  { token with span := relocation.move token.span }

/-- A duplicate declaration has the place of the earlier one too. -/
def AnalysisError.relocate : AnalysisError → AnalysisError
  | unknownCharacter character span => unknownCharacter character (relocation.move span)
  | unterminatedString lexeme span => unterminatedString lexeme (relocation.move span)
  | malformedNumber lexeme span => malformedNumber lexeme (relocation.move span)
  | unterminatedComment span => unterminatedComment (relocation.move span)
  | unexpectedToken expected got span => unexpectedToken expected got (relocation.move span)
  | expectedExpression got span => expectedExpression got (relocation.move span)
  | expectedIdentifier got span => expectedIdentifier got (relocation.move span)
  | trailingInput got span => trailingInput got (relocation.move span)
  | nestingTooDeep limit span => nestingTooDeep limit (relocation.move span)
  | expressionTooLong limit span => expressionTooLong limit (relocation.move span)
  | duplicateDeclaration name previous span =>
    duplicateDeclaration name (relocation.move previous) (relocation.move span)
  | typeMismatch expected got span => typeMismatch expected got (relocation.move span)
  | undefinedVariable name span => undefinedVariable name (relocation.move span)
  | stageOrder stage requires => stageOrder stage requires
  | emptySource => emptySource

/-! ### Trees -/

def Identifier.relocate (name : Identifier) : Identifier :=
  { name with span := relocation.move name.span }

def Expression.relocate : Expression → Expression
  | literal value span => literal value (relocation.move span)
  | identifier name => identifier (name.relocate relocation)
  | binary op left right span => binary op left.relocate right.relocate (relocation.move span)
  | unary op operand span => unary op operand.relocate (relocation.move span)

def Declaration.relocate (declared : Declaration) : Declaration :=
  ⟨declared.ty, declared.name.relocate relocation, declared.value?.map (·.relocate relocation),
    relocation.move declared.span⟩

def Assignment.relocate (stored : Assignment) : Assignment :=
  ⟨stored.target.relocate relocation, stored.op, stored.value.relocate relocation,
    relocation.move stored.span⟩

def LoopStart.relocate : LoopStart → LoopStart
  | nothing => nothing
  | declaration declared => declaration (declared.relocate relocation)
  | assignment stored => assignment (stored.relocate relocation)

namespace Statement

mutual

def relocate : Statement → Statement
  | declaration declared => declaration (declared.relocate relocation)
  | assignment stored => assignment (stored.relocate relocation)
  | ifThen condition branch span =>
      ifThen (condition.relocate relocation) branch.relocate (relocation.move span)
  | ifElse condition branch otherwise span =>
      ifElse (condition.relocate relocation) branch.relocate otherwise.relocate
        (relocation.move span)
  | whileLoop condition body span =>
      whileLoop (condition.relocate relocation) body.relocate (relocation.move span)
  | forLoop start condition? update? body span =>
      forLoop (start.relocate relocation) (condition?.map (·.relocate relocation))
        (update?.map (·.relocate relocation)) body.relocate (relocation.move span)
  | print value span => print (value.relocate relocation) (relocation.move span)
  | block body span => block (relocateAll body) (relocation.move span)
  | empty span => empty (relocation.move span)

def relocateAll : List Statement → List Statement
  | [] => []
  | statement :: statements => statement.relocate :: relocateAll statements

end

end Statement

def Program.relocate (program : Program) : Program :=
  ⟨Statement.relocateAll relocation program.statements⟩

/-! ### Scopes and states of reading -/

def Declared.relocate (declared : Declared) : Declared :=
  { declared with span := relocation.move declared.span }

def Scope.relocate (scope : Scope) : Scope :=
  { scope with names := scope.names.map (·.relocate relocation) }

def ScopeTable.relocate (table : ScopeTable) : ScopeTable :=
  { table with scopes := table.scopes.map (·.relocate relocation) }

def ParseState.relocate (state : ParseState) : ParseState :=
  { state with
    rest := state.rest.map (·.relocate relocation)
    previous := relocation.move state.previous
    closing := state.closing.relocate relocation }

/-! ### What stays -/

variable {relocation}

theorem Expression.relocate_span (expression : Expression) :
    (expression.relocate relocation).span = relocation.move expression.span := by
  cases expression <;> rfl

theorem Statement.relocateAll_eq_map (statements : List Statement) :
    relocateAll relocation statements = statements.map (·.relocate relocation) := by
  induction statements with
  | nil => rfl
  | cons statement statements inductionHypothesis =>
      rw [relocateAll, inductionHypothesis, List.map_cons]

end StagedAnalysis
