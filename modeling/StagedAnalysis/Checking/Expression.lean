import StagedAnalysis.Checking.Operation
import StagedAnalysis.Program
import StagedAnalysis.Scope
/-!
Checking expressions from left to right: the type of an expression, and what is wrong with it. An
expression that is wrong has the type `error`, which fits everywhere, so that its mistake is
reported once.
-/
namespace StagedAnalysis

def AnalysisError.mismatch (expected got : Ty) (span : Span) : AnalysisError :=
  .typeMismatch expected.text got.text span

namespace Identifier

def check (name : Identifier) (table : ScopeTable) : Ty × List AnalysisError :=
  match table.lookup? name.name with
  | some declared => (declared.ty, [])
  | none => (.error, [.undefinedVariable name.name name.span])

end Identifier

namespace Expression

def check (widening : Bool) (table : ScopeTable) : Expression → Ty × List AnalysisError
  | literal value _ => (value.ty, [])
  | identifier name => name.check table
  | binary op left right span =>
    let (leftTy, leftErrors) := left.check widening table
    let (rightTy, rightErrors) := right.check widening table
    let (ty, errors) := op.check leftTy rightTy widening span
    (ty, leftErrors ++ rightErrors ++ errors)
  | unary op operand span =>
    let (operandTy, operandErrors) := operand.check widening table
    let (ty, errors) := op.check operandTy span
    (ty, operandErrors ++ errors)

def checkCondition (widening : Bool) (table : ScopeTable) (condition : Expression) :
    List AnalysisError :=
  let (ty, errors) := condition.check widening table
  if ty = .bool ∨ ty = .error then errors
  else errors ++ [.mismatch .bool ty condition.span]

end Expression

def Ty.checkStore (target value : Ty) (widening : Bool) (span : Span) : List AnalysisError :=
  if target.accepts value widening then [] else [.mismatch target value span]

end StagedAnalysis
