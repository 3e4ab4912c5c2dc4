import StagedAnalysis.Proofs.Grammar
/-!
Programs as trees of nodes.

A node is a statement, an expression or a name. The header of a counting loop may hold two
statements of its own, one that it begins with and one that it ends each round with; they stand
below the loop like its body. A path goes from a node down to a leaf. The ranges that a tree carries
have no part in its shape, so a tree has the same paths with them and without them.
-/
namespace StagedAnalysis

inductive Node where
  | statement (statement : Statement)
  | expression (expression : Expression)
  | name (name : Identifier)

def LoopStart.statement? : LoopStart → Option Statement
  | nothing => none
  | declaration declared => some (.declaration declared)
  | assignment stored => some (.assignment stored)

namespace Node

/-- The nodes directly below a node, from left to right. -/
def children : Node → List Node
  | statement (.declaration declared) =>
    name declared.name :: declared.value?.toList.map expression
  | statement (.assignment stored) => [name stored.target, expression stored.value]
  | statement (.ifThen condition branch _) => [expression condition, statement branch]
  | statement (.ifElse condition branch otherwise _) =>
    [expression condition, statement branch, statement otherwise]
  | statement (.whileLoop condition body _) => [expression condition, statement body]
  | statement (.forLoop start condition? update? body _) =>
    start.statement?.toList.map statement ++ condition?.toList.map expression ++
      update?.toList.map (statement <| .assignment ·) ++ [statement body]
  | statement (.print value _) => [expression value]
  | statement (.block body _) => body.map statement
  | statement (.empty _) => []
  | expression (.literal _ _) => []
  | expression (.identifier _) => []
  | expression (.binary _ left right _) => [expression left, expression right]
  | expression (.unary _ operand _) => [expression operand]
  | name _ => []

inductive Path : Node → List Node → Prop
  | leaf {node : Node} (ends : node.children = []) : Path node [node]
  | step {node child : Node} {path : List Node} (below : child ∈ node.children)
      (onward : Path child path) : Path node (node :: path)

inductive Reaches : Node → Node → Prop
  | here {node : Node} : Reaches node node
  | further {node child target : Node} (below : child ∈ node.children)
      (onward : Reaches child target) : Reaches node target

def isStatement : Node → Bool
  | statement _ => true
  | _ => false

def isBinary : Node → Bool
  | expression (.binary _ _ _ _) => true
  | _ => false

def isUnary : Node → Bool
  | expression (.unary _ _ _) => true
  | _ => false

def isLeaf (node : Node) : Bool :=
  node.children.isEmpty

/-! ### Paths -/

variable {node : Node} {path : List Node}

theorem Path.ne_nil (leads : Path node path) : path ≠ [] := by
  cases leads <;> exact List.cons_ne_nil _ _

theorem Path.of_childless (leads : Path node path) (ends : node.children = []) :
    path = [node] := by
  cases leads with
  | leaf _ => rfl
  | step below _ =>
      rw [ends] at below
      cases below

/-- A path from a node with something below goes on with a path from there. -/
theorem Path.of_mem {other : Node} (leads : Path node path) (some : other ∈ node.children) :
    ∃ child ∈ node.children, ∃ onward, Path child onward ∧ path = node :: onward := by
  cases leads with
  | leaf ends =>
      rw [ends] at some
      cases some
  | step below onward => exact ⟨_, below, _, onward, rfl⟩

theorem Path.of_unary {op : UnaryOp} {operand : Expression} {span : Span}
    (leads : Path (expression (.unary op operand span)) path) :
    ∃ onward, Path (expression operand) onward ∧
      path = expression (.unary op operand span) :: onward := by
  obtain ⟨child, below, onward, rest, rfl⟩ := leads.of_mem List.mem_cons_self
  cases List.mem_singleton.mp below
  exact ⟨onward, rest, rfl⟩

theorem Path.of_binary {op : BinaryOp} {left right : Expression} {span : Span}
    (leads : Path (expression (.binary op left right span)) path) :
    ∃ onward, (Path (expression left) onward ∨ Path (expression right) onward) ∧
      path = expression (.binary op left right span) :: onward := by
  obtain ⟨child, below, onward, rest, rfl⟩ := leads.of_mem List.mem_cons_self
  rcases List.mem_cons.mp below with rfl | below
  · exact ⟨onward, .inl rest, rfl⟩
  · cases List.mem_singleton.mp below
    exact ⟨onward, .inr rest, rfl⟩

theorem Path.countP_isLeaf (leads : Path node path) : path.countP isLeaf = 1 := by
  induction leads with
  | leaf ends => simp [isLeaf, ends]
  | @step node child path below onward inductionHypothesis =>
      have inner : node.isLeaf = false := by
        rw [isLeaf, List.isEmpty_eq_false_iff]
        exact List.ne_nil_of_mem below
      rw [List.countP_cons_of_neg (by simp [inner]), inductionHypothesis]

/-- On the way down in an expression there are no statements, at most all of its binary operators,
and nothing but operators up to the leaf. -/
theorem Path.counts {tree : Expression} (leads : Path (expression tree) path) :
    path.countP isStatement = 0 ∧ path.countP isBinary ≤ tree.operatorCount ∧
      path.length = path.countP isBinary + path.countP isUnary + 1 := by
  induction tree generalizing path with
  | literal value span =>
      cases leads.of_childless rfl
      exact ⟨rfl, Nat.le_refl _, rfl⟩
  | identifier name =>
      cases leads.of_childless rfl
      exact ⟨rfl, Nat.le_refl _, rfl⟩
  | binary op left right span leftHypothesis rightHypothesis =>
      obtain ⟨onward, rest, rfl⟩ := leads.of_binary
      simp only [List.length_cons, List.countP_cons, isStatement, isBinary, isUnary,
        Expression.operatorCount, if_true, Bool.false_eq_true, if_false]
      rcases rest with rest | rest
      · have counted := leftHypothesis rest
        omega
      · have counted := rightHypothesis rest
        omega
  | unary op operand span inductionHypothesis =>
      obtain ⟨onward, rest, rfl⟩ := leads.of_unary
      have counted := inductionHypothesis rest
      simp only [List.length_cons, List.countP_cons, isStatement, isBinary, isUnary,
        Expression.operatorCount, if_true, Bool.false_eq_true, if_false]
      omega

/-- Below what is no statement there are no statements. -/
theorem Reaches.isStatement_eq_false {target : Node} (reaches : Reaches node target)
    (outside : node.isStatement = false) : target.isStatement = false := by
  induction reaches with
  | here => exact outside
  | @further node child target below onward inductionHypothesis =>
      have childOutside : child.isStatement = false := by
        cases node with
        | statement tree => cases outside
        | expression tree => cases tree <;> grind [children, isStatement]
        | name written => cases below
      exact inductionHypothesis childOutside

theorem sizeOf_lt_of_mem_children {child : Node} (below : child ∈ node.children) :
    sizeOf child < sizeOf node := by
  cases node with
  | statement tree =>
      cases tree with
      | declaration declared =>
          obtain ⟨ty, name, value?, span⟩ := declared
          cases value? <;> grind [children]
      | assignment stored =>
          obtain ⟨target, op, value, span⟩ := stored
          grind [children]
      | forLoop start condition? update? body span =>
          cases start <;> cases condition? <;> cases update? <;>
            grind [children, LoopStart.statement?]
      | block body span =>
          obtain ⟨inner, member, rfl⟩ := List.mem_map.mp below
          have smaller := List.sizeOf_lt_of_mem member
          simp only [statement.sizeOf_spec, Statement.block.sizeOf_spec]
          omega
      | _ => grind [children]
  | expression tree => cases tree <;> grind [children]
  | name written => cases below

/-- Every node has a path to a leaf. -/
theorem exists_path (node : Node) : ∃ path, Path node path := by
  cases shape : node.children with
  | nil => exact ⟨[node], .leaf shape⟩
  | cons child others =>
      have below : child ∈ node.children := shape ▸ List.mem_cons_self
      have smaller := sizeOf_lt_of_mem_children below
      obtain ⟨path, leads⟩ := exists_path child
      exact ⟨node :: path, .step below leads⟩
termination_by sizeOf node

/-! ### Expressions in post-order -/

end Node

/-- All expressions in an expression: operands before their operator, the left one first. -/
def Expression.postorder : Expression → List Expression
  | literal value span => [literal value span]
  | identifier name => [identifier name]
  | binary op left right span =>
    left.postorder ++ right.postorder ++ [binary op left right span]
  | unary op operand span => operand.postorder ++ [unary op operand span]

theorem Expression.sizeOf_le_of_mem_postorder {tree node : Expression}
    (within : node ∈ tree.postorder) : sizeOf node ≤ sizeOf tree := by
  induction tree with
  | literal value span => cases List.mem_singleton.mp within; exact Nat.le_refl _
  | identifier name => cases List.mem_singleton.mp within; exact Nat.le_refl _
  | binary op left right span leftHypothesis rightHypothesis =>
      rcases List.mem_append.mp within with inside | last
      · rw [binary.sizeOf_spec]
        rcases List.mem_append.mp inside with inLeft | inRight
        · have smaller := leftHypothesis inLeft
          omega
        · have smaller := rightHypothesis inRight
          omega
      · cases List.mem_singleton.mp last
        exact Nat.le_refl _
  | unary op operand span inductionHypothesis =>
      rcases List.mem_append.mp within with inside | last
      · have smaller := inductionHypothesis inside
        rw [unary.sizeOf_spec]
        omega
      · cases List.mem_singleton.mp last
        exact Nat.le_refl _

namespace Node

/-! ### Nodes without ranges -/

def unplaced : Node → Node
  | statement tree => statement tree.unplaced
  | expression tree => expression tree.unplaced
  | name written => name written.unplaced

end Node

theorem Statement.unplacedAll_eq_map (statements : List Statement) :
    unplacedAll statements = statements.map (·.unplaced) := by
  induction statements with
  | nil => rfl
  | cons statement statements inductionHypothesis =>
      rw [unplacedAll, inductionHypothesis, List.map_cons]

namespace Node

theorem children_unplaced (node : Node) :
    node.unplaced.children = node.children.map unplaced := by
  cases node with
  | statement tree =>
      cases tree with
      | declaration declared =>
          obtain ⟨ty, name, value?, span⟩ := declared
          cases value? <;> rfl
      | forLoop start condition? update? body span =>
          cases start <;> cases condition? <;> cases update? <;> rfl
      | block body span =>
          simp only [unplaced, Statement.unplaced, children, Statement.unplacedAll_eq_map,
            List.map_map, Function.comp_def]
      | _ => rfl
  | expression tree => cases tree <;> rfl
  | name written => rfl

theorem isStatement_unplaced (node : Node) : node.unplaced.isStatement = node.isStatement := by
  cases node <;> rfl

theorem isUnary_unplaced (node : Node) : node.unplaced.isUnary = node.isUnary := by
  rcases node with _ | tree | _
  · rfl
  · cases tree <;> rfl
  · rfl

theorem countP_isStatement_unplaced (path : List Node) :
    (path.map unplaced).countP isStatement = path.countP isStatement := by
  simp only [List.countP_map, Function.comp_def, isStatement_unplaced]

theorem countP_isUnary_unplaced (path : List Node) :
    (path.map unplaced).countP isUnary = path.countP isUnary := by
  simp only [List.countP_map, Function.comp_def, isUnary_unplaced]

theorem Path.unplaced (leads : Path node path) : Path node.unplaced (path.map unplaced) := by
  induction leads with
  | @leaf node ends => exact .leaf (by rw [children_unplaced, ends, List.map_nil])
  | @step node child path below onward inductionHypothesis =>
      refine .step ?_ inductionHypothesis
      rw [children_unplaced]
      exact List.mem_map_of_mem below

theorem Path.of_unplaced (leads : Path node.unplaced path) :
    ∃ placed, Path node placed ∧ placed.map Node.unplaced = path := by
  generalize same : node.unplaced = bare at leads
  induction leads generalizing node with
  | leaf ends =>
      subst same
      rw [children_unplaced, List.map_eq_nil_iff] at ends
      exact ⟨[node], .leaf ends, rfl⟩
  | step below onward inductionHypothesis =>
      subst same
      rw [children_unplaced] at below
      obtain ⟨child, member, shape⟩ := List.mem_map.mp below
      obtain ⟨placed, leads, rfl⟩ := inductionHypothesis shape
      exact ⟨node :: placed, .step member leads, rfl⟩

theorem Reaches.unplaced {target : Node} (reaches : Reaches node target) :
    Reaches node.unplaced target.unplaced := by
  induction reaches with
  | here => exact .here
  | @further node child target below onward inductionHypothesis =>
      refine .further ?_ inductionHypothesis
      rw [children_unplaced]
      exact List.mem_map_of_mem below

end Node

/-! ### Programs -/

def Program.Path (program : Program) (path : List Node) : Prop :=
  ∃ outer ∈ program.statements, Node.Path (.statement outer) path

theorem Program.Path.unplaced {program : Program} {path : List Node} (leads : program.Path path) :
    program.unplaced.Path (path.map Node.unplaced) := by
  obtain ⟨outer, member, onward⟩ := leads
  refine ⟨outer.unplaced, ?_, onward.unplaced⟩
  rw [Program.unplaced, Statement.unplacedAll_eq_map]
  exact List.mem_map_of_mem member

theorem Program.Path.of_unplaced {program : Program} {path : List Node}
    (leads : program.unplaced.Path path) :
    ∃ placed, program.Path placed ∧ placed.map Node.unplaced = path := by
  obtain ⟨bare, member, onward⟩ := leads
  rw [Program.unplaced, Statement.unplacedAll_eq_map] at member
  obtain ⟨outer, within, rfl⟩ := List.mem_map.mp member
  have below : Node.Path (Node.statement outer).unplaced path := onward
  obtain ⟨placed, leads, rfl⟩ := below.of_unplaced
  exact ⟨placed, ⟨outer, within, leads⟩, rfl⟩

/-- The expressions that stand directly below a statement, wherever that is in the program. -/
def Program.Completes (program : Program) (value : Expression) : Prop :=
  ∃ outer ∈ program.statements, ∃ holder,
    Node.Reaches (.statement outer) (.statement holder) ∧
      .expression value ∈ (Node.statement holder).children

end StagedAnalysis
