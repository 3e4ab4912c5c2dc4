import StagedAnalysis.Checking.Expression
/-!
Checking statements from left to right: the scopes behind a statement, and what is wrong with it.

Scopes are opened by blocks, by the branches of a conditional, by the bodies of loops and by the
header of a counting loop. A name is declared only after the expression of its first value.
-/
namespace StagedAnalysis

namespace Declaration

def check (widening : Bool) (table : ScopeTable) (declaration : Declaration) :
    ScopeTable × List AnalysisError :=
  let valueErrors :=
    match declaration.value? with
    | some value =>
      let (ty, errors) := value.check widening table
      errors ++ declaration.ty.checkStore ty widening value.span
    | none => []
  match table.define ⟨declaration.name.name, declaration.ty, declaration.name.span⟩ with
  | .ok extended => (extended, valueErrors)
  | .error error => (table, valueErrors ++ [error])

end Declaration

namespace Assignment

/-- A compound assignment is the arithmetic step followed by the store. -/
def check (widening : Bool) (table : ScopeTable) (assignment : Assignment) : List AnalysisError :=
  let (targetTy, targetErrors) := assignment.target.check table
  let (valueTy, valueErrors) := assignment.value.check widening table
  let (storedTy, stepErrors) :=
    match assignment.op.step? with
    | some op => op.check targetTy valueTy widening assignment.value.span
    | none => (valueTy, [])
  targetErrors ++ valueErrors ++ stepErrors
    ++ targetTy.checkStore storedTy widening assignment.value.span

end Assignment

def LoopStart.check (widening : Bool) (table : ScopeTable) :
    LoopStart → ScopeTable × List AnalysisError
  | nothing => (table, [])
  | declaration declared => declared.check widening table
  | assignment stored => (table, stored.check widening table)

namespace Statement

mutual

def check (widening : Bool) (table : ScopeTable) : Statement → ScopeTable × List AnalysisError
  | declaration declared => declared.check widening table
  | assignment stored => (table, stored.check widening table)
  | ifThen condition branch _ =>
    let conditionErrors := condition.checkCondition widening table
    let (behind, branchErrors) := branch.check widening table.enter
    (behind.leave, conditionErrors ++ branchErrors)
  | ifElse condition branch otherwise _ =>
    let conditionErrors := condition.checkCondition widening table
    let (between, branchErrors) := branch.check widening table.enter
    let (behind, otherwiseErrors) := otherwise.check widening between.leave.enter
    (behind.leave, conditionErrors ++ branchErrors ++ otherwiseErrors)
  | whileLoop condition body _ =>
    let conditionErrors := condition.checkCondition widening table
    let (behind, bodyErrors) := body.check widening table.enter
    (behind.leave, conditionErrors ++ bodyErrors)
  | forLoop start condition? update? body _ =>
    let (header, startErrors) := start.check widening table.enter
    let conditionErrors := (condition?.map (·.checkCondition widening header)).getD []
    let updateErrors := (update?.map (·.check widening header)).getD []
    let (behind, bodyErrors) := body.check widening header.enter
    (behind.leave.leave, startErrors ++ conditionErrors ++ updateErrors ++ bodyErrors)
  | print value _ => (table, (value.check widening table).2)
  | block body _ =>
    let (behind, errors) := checkAll widening table.enter body
    (behind.leave, errors)
  | empty _ => (table, [])

def checkAll (widening : Bool) (table : ScopeTable) :
    List Statement → ScopeTable × List AnalysisError
  | [] => (table, [])
  | statement :: statements =>
    let (between, errors) := statement.check widening table
    let (behind, otherErrors) := checkAll widening between statements
    (behind, errors ++ otherErrors)

end

end Statement

end StagedAnalysis
