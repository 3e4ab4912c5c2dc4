import StagedAnalysis.Checking.Analyzer
import StagedAnalysis.Proofs.Checking.Traces
import StagedAnalysis.Proofs.Trees
/-!
The expressions of a program and the types that they are found to have.

The expressions of a program stand in its tree, each of them as often as it occurs. Checking comes
to them in post-order, and to each in the scopes that are open at its place. The list of typings
says which type every one of them is found to have there; it leaves none of them out.
-/
namespace StagedAnalysis

/-! ### Expressions of a tree -/

namespace Node

def expression? : Node → Option Expression
  | expression tree => some tree
  | _ => none

/-- All expressions below a node in post-order, and the node itself if it is one. -/
def expressions (node : Node) : List Expression :=
  node.children.attach.flatMap (fun child => child.val.expressions) ++ node.expression?.toList
termination_by sizeOf node
decreasing_by exact sizeOf_lt_of_mem_children child.property

theorem expressions_eq (node : Node) :
    node.expressions = node.children.flatMap expressions ++ node.expression?.toList := by
  rw [expressions, List.flatMap_subtype (fun _ _ => rfl), List.unattach_attach]

theorem expressions_statement (tree : Statement) :
    (statement tree).expressions = (statement tree).children.flatMap expressions := by
  rw [expressions_eq]
  exact List.append_nil _

theorem expressions_name (name : Identifier) : (Node.name name).expressions = [] := by
  rw [expressions_eq]
  rfl

theorem expressions_expression (tree : Expression) :
    (expression tree).expressions = tree.postorder := by
  induction tree with
  | literal value span => rw [expressions_eq]; rfl
  | identifier name => rw [expressions_eq]; rfl
  | binary op left right span leftSame rightSame =>
      rw [expressions_eq, Expression.postorder, ← leftSame, ← rightSame]
      simp [children, expression?]
  | unary op operand span same =>
      rw [expressions_eq, Expression.postorder, ← same]
      simp [children, expression?]

end Node

def Program.expressions (program : Program) : List Expression :=
  program.statements.flatMap fun outer => (Node.statement outer).expressions

/-! ### Their types -/

/-- The expressions in an expression with the types that they are found to have. -/
def Expression.typings (widening : Bool) (table : ScopeTable) (expression : Expression) :
    List (Expression × Ty) :=
  expression.postorder.map fun node => (node, (node.check widening table).1)

def Declaration.typings (widening : Bool) (table : ScopeTable) (declared : Declaration) :
    List (Expression × Ty) :=
  (declared.value?.map (·.typings widening table)).getD []

def Assignment.typings (widening : Bool) (table : ScopeTable) (stored : Assignment) :
    List (Expression × Ty) :=
  stored.value.typings widening table

def LoopStart.typings (widening : Bool) (table : ScopeTable) : LoopStart → List (Expression × Ty)
  | nothing => []
  | declaration declared => declared.typings widening table
  | assignment stored => stored.typings widening table

namespace Statement

mutual

/-- The expressions in a statement with the types that they are found to have, each in the scopes
that are open where it is checked. -/
def typings (widening : Bool) (table : ScopeTable) : Statement → List (Expression × Ty)
  | declaration declared => declared.typings widening table
  | assignment stored => stored.typings widening table
  | ifThen condition branch _ =>
    condition.typings widening table ++ branch.typings widening table.enter
  | ifElse condition branch otherwise _ =>
    condition.typings widening table ++ branch.typings widening table.enter ++
      otherwise.typings widening (branch.check widening table.enter).1.leave.enter
  | whileLoop condition body _ =>
    condition.typings widening table ++ body.typings widening table.enter
  | forLoop start condition? update? body _ =>
    let header := (start.check widening table.enter).1
    start.typings widening table.enter ++
      (condition?.map (·.typings widening header)).getD [] ++
      (update?.map (·.typings widening header)).getD [] ++ body.typings widening header.enter
  | print value _ => value.typings widening table
  | block body _ => typingsAll widening table.enter body
  | empty _ => []

def typingsAll (widening : Bool) (table : ScopeTable) : List Statement → List (Expression × Ty)
  | [] => []
  | statement :: statements =>
    statement.typings widening table ++
      typingsAll widening (statement.check widening table).1 statements

end

end Statement

def Program.typings (program : Program) (strict : Bool) : List (Expression × Ty) :=
  Statement.typingsAll (!strict) .outermost program.statements

/-! ### No expression is left out -/

section Coverage

variable (widening : Bool) (table : ScopeTable)

theorem Expression.map_typings (expression : Expression) :
    (expression.typings widening table).map (·.1) = (Node.expression expression).expressions := by
  rw [typings, List.map_map, Node.expressions_expression]
  exact List.map_id _

/-- What may be left out has the typings that it has where it is there. -/
theorem map_typings_part {α : Type} {part? : Option α} {typings : α → List (Expression × Ty)}
    {node : α → Node} (each : ∀ part, (typings part).map (·.1) = (node part).expressions) :
    ((part?.map typings).getD []).map (·.1) =
      (part?.toList.map node).flatMap Node.expressions := by
  cases part? with
  | none => rfl
  | some part => simp [each part]

theorem Declaration.map_typings (declared : Declaration) :
    (declared.typings widening table).map (·.1) =
      (Node.statement (.declaration declared)).expressions := by
  rw [typings, Node.expressions_statement,
    map_typings_part fun value => value.map_typings widening table]
  simp [Node.children, Node.expressions_name]

theorem Assignment.map_typings (stored : Assignment) :
    (stored.typings widening table).map (·.1) =
      (Node.statement (.assignment stored)).expressions := by
  rw [typings, Node.expressions_statement, stored.value.map_typings]
  simp [Node.children, Node.expressions_name]

theorem LoopStart.map_typings (start : LoopStart) :
    (start.typings widening table).map (·.1) =
      (start.statement?.toList.map Node.statement).flatMap Node.expressions := by
  cases start with
  | nothing => rfl
  | declaration declared => simp [typings, statement?, declared.map_typings]
  | assignment stored => simp [typings, statement?, stored.map_typings]

namespace Statement

mutual

theorem map_typings (statement : Statement) (table : ScopeTable) :
    (statement.typings widening table).map (·.1) = (Node.statement statement).expressions := by
  cases statement with
  | declaration declared => exact declared.map_typings widening table
  | assignment stored => exact stored.map_typings widening table
  | ifThen condition branch span =>
      rw [typings, Node.expressions_statement, List.map_append, condition.map_typings,
        map_typings branch]
      simp [Node.children]
  | ifElse condition branch otherwise span =>
      rw [typings, Node.expressions_statement, List.map_append, List.map_append,
        condition.map_typings, map_typings branch, map_typings otherwise]
      simp [Node.children]
  | whileLoop condition body span =>
      rw [typings, Node.expressions_statement, List.map_append, condition.map_typings,
        map_typings body]
      simp [Node.children]
  | forLoop start condition? update? body span =>
      rw [typings, Node.expressions_statement, List.map_append, List.map_append, List.map_append,
        start.map_typings, map_typings body,
        map_typings_part fun condition => condition.map_typings widening _,
        map_typings_part fun update => update.map_typings widening _]
      simp [Node.children]
  | print value span =>
      rw [typings, Node.expressions_statement, value.map_typings]
      simp [Node.children]
  | block body span =>
      rw [typings, Node.expressions_statement, map_typingsAll body, Node.children,
        List.flatMap_map]
  | empty span =>
      rw [typings, Node.expressions_statement]
      rfl

theorem map_typingsAll (statements : List Statement) (table : ScopeTable) :
    (typingsAll widening table statements).map (·.1) =
      statements.flatMap fun statement => (Node.statement statement).expressions := by
  cases statements with
  | nil => rfl
  | cons statement statements =>
      rw [typingsAll, List.map_append, map_typings statement, map_typingsAll statements,
        List.flatMap_cons]

end

end Statement

end Coverage

end StagedAnalysis
