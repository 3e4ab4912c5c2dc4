import StagedAnalysis.AnalysisError
import StagedAnalysis.Program
/-!
Names without types.

A resolver walks a program from left to right with a stack of scopes, the innermost one first, and
knows of types nothing. Every use of a name is a mistake if no open scope declares the name, and
every declaration if the innermost scope declares it already. A name that is declared again stays in
its scope twice; what counts is the first time.
-/
namespace StagedAnalysis

/-! ### Scopes -/

namespace Naming

/-- The names that a scope declares at their places, in the order of the declarations. -/
abbrev Scope := List Identifier

abbrev Scopes := List Scope

def Scopes.binds (scopes : Scopes) (name : String) : Bool :=
  scopes.any fun scope => scope.any (·.name == name)

def Scopes.first? (scopes : Scopes) (name : String) : Option Identifier :=
  scopes.head?.bind fun scope => scope.find? (·.name == name)

def Scopes.declare (name : Identifier) : Scopes → Scopes
  | [] => []
  | innermost :: outer => (innermost ++ [name]) :: outer

end Naming

open Naming

/-! ### Expressions -/

def Identifier.resolve (scopes : Scopes) (name : Identifier) : List AnalysisError :=
  if scopes.binds name.name then [] else [.undefinedVariable name.name name.span]

def Expression.resolve (scopes : Scopes) : Expression → List AnalysisError
  | literal _ _ => []
  | identifier name => name.resolve scopes
  | binary _ left right _ => left.resolve scopes ++ right.resolve scopes
  | unary _ operand _ => operand.resolve scopes

/-! ### Statements -/

/-- A name is declared behind the expression of its first value. -/
def Declaration.resolve (scopes : Scopes) (declared : Declaration) : Scopes × List AnalysisError :=
  let valueErrors := (declared.value?.map (·.resolve scopes)).getD []
  let clash :=
    match scopes.first? declared.name.name with
    | some first => [.duplicateDeclaration declared.name.name first.span declared.name.span]
    | none => []
  (scopes.declare declared.name, valueErrors ++ clash)

/-- The target is a use of its name, and only one where the old value goes into the new one. -/
def Assignment.resolve (scopes : Scopes) (stored : Assignment) : List AnalysisError :=
  stored.target.resolve scopes ++ stored.value.resolve scopes

def LoopStart.resolve (scopes : Scopes) : LoopStart → Scopes × List AnalysisError
  | nothing => (scopes, [])
  | declaration declared => declared.resolve scopes
  | assignment stored => (scopes, stored.resolve scopes)

namespace Statement

mutual

def resolve (scopes : Scopes) : Statement → Scopes × List AnalysisError
  | declaration declared => declared.resolve scopes
  | assignment stored => (scopes, stored.resolve scopes)
  | ifThen condition branch _ =>
    let (behind, branchErrors) := branch.resolve ([] :: scopes)
    (behind.tail, condition.resolve scopes ++ branchErrors)
  | ifElse condition branch otherwise _ =>
    let (between, branchErrors) := branch.resolve ([] :: scopes)
    let (behind, otherwiseErrors) := otherwise.resolve ([] :: between.tail)
    (behind.tail, condition.resolve scopes ++ branchErrors ++ otherwiseErrors)
  | whileLoop condition body _ =>
    let (behind, bodyErrors) := body.resolve ([] :: scopes)
    (behind.tail, condition.resolve scopes ++ bodyErrors)
  | forLoop start condition? update? body _ =>
    let (header, startErrors) := start.resolve ([] :: scopes)
    let conditionErrors := (condition?.map (·.resolve header)).getD []
    let updateErrors := (update?.map (·.resolve header)).getD []
    let (behind, bodyErrors) := body.resolve ([] :: header)
    (behind.tail.tail, startErrors ++ conditionErrors ++ updateErrors ++ bodyErrors)
  | print value _ => (scopes, value.resolve scopes)
  | block body _ =>
    let (behind, errors) := resolveAll ([] :: scopes) body
    (behind.tail, errors)
  | empty _ => (scopes, [])

def resolveAll (scopes : Scopes) : List Statement → Scopes × List AnalysisError
  | [] => (scopes, [])
  | statement :: statements =>
    let (between, errors) := statement.resolve scopes
    let (behind, otherErrors) := resolveAll between statements
    (behind, errors ++ otherErrors)

end

end Statement

/-! ### Equations of the resolver -/

namespace Statement

variable (scopes : Scopes) (condition : Expression) (branch otherwise : Statement) (span : Span)

theorem resolve_ifThen :
    (ifThen condition branch span).resolve scopes =
      ((branch.resolve ([] :: scopes)).1.tail,
        condition.resolve scopes ++ (branch.resolve ([] :: scopes)).2) := by
  rw [resolve]

theorem resolve_ifElse :
    (ifElse condition branch otherwise span).resolve scopes =
      ((otherwise.resolve ([] :: (branch.resolve ([] :: scopes)).1.tail)).1.tail,
        condition.resolve scopes ++ (branch.resolve ([] :: scopes)).2 ++
          (otherwise.resolve ([] :: (branch.resolve ([] :: scopes)).1.tail)).2) := by
  rw [resolve]

theorem resolve_whileLoop :
    (whileLoop condition branch span).resolve scopes =
      ((branch.resolve ([] :: scopes)).1.tail,
        condition.resolve scopes ++ (branch.resolve ([] :: scopes)).2) := by
  rw [resolve]

theorem resolve_forLoop (start : LoopStart) (condition? : Option Expression)
    (update? : Option Assignment) :
    (forLoop start condition? update? branch span).resolve scopes =
      ((branch.resolve ([] :: (start.resolve ([] :: scopes)).1)).1.tail.tail,
        (start.resolve ([] :: scopes)).2 ++
          (condition?.map (·.resolve (start.resolve ([] :: scopes)).1)).getD [] ++
          (update?.map (·.resolve (start.resolve ([] :: scopes)).1)).getD [] ++
          (branch.resolve ([] :: (start.resolve ([] :: scopes)).1)).2) := by
  rw [resolve]

theorem resolve_block (body : List Statement) :
    (block body span).resolve scopes =
      ((resolveAll ([] :: scopes) body).1.tail, (resolveAll ([] :: scopes) body).2) := by
  rw [resolve]

theorem resolveAll_cons (statement : Statement) (statements : List Statement) :
    resolveAll scopes (statement :: statements) =
      ((resolveAll (statement.resolve scopes).1 statements).1,
        (statement.resolve scopes).2 ++
          (resolveAll (statement.resolve scopes).1 statements).2) := by
  rw [resolveAll]

end Statement

/-- All that is wrong with the names of a program. The program itself is the outermost scope. -/
def Program.resolve (program : Program) : List AnalysisError :=
  (Statement.resolveAll [[]] program.statements).2

def AnalysisError.isAboutNames (error : AnalysisError) : Bool :=
  error.code == "M001" || error.code == "M003"

end StagedAnalysis
