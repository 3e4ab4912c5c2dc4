import StagedAnalysis.Checking.Analyzer
import StagedAnalysis.Proofs.Reading.Depth
/-!
How deep checking goes.

Checking follows the tree, so a tree of any height makes it go as deep. The checkers here are given
how many calls may be open at once, for statements and for expressions, and give up where one more
would be needed. On programs that were read they never give up, whatever the length of the source,
and so they say the same as the checkers without a bound.
-/
namespace StagedAnalysis

/-! ### Checkers with a bound -/

namespace Expression

/-- Checks an expression with at most so many calls open at once. -/
def checkWithin (widening : Bool) (table : ScopeTable) :
    Nat → Expression → Option (Ty × List AnalysisError)
  | 0, _ => none
  | _ + 1, literal value _ => some (value.ty, [])
  | _ + 1, identifier name => some (name.check table)
  | calls + 1, binary op left right span => do
    let (leftTy, leftErrors) ← left.checkWithin widening table calls
    let (rightTy, rightErrors) ← right.checkWithin widening table calls
    let (ty, errors) := op.check leftTy rightTy widening span
    return (ty, leftErrors ++ rightErrors ++ errors)
  | calls + 1, unary op operand span => do
    let (operandTy, operandErrors) ← operand.checkWithin widening table calls
    let (ty, errors) := op.check operandTy span
    return (ty, operandErrors ++ errors)

def checkConditionWithin (widening : Bool) (table : ScopeTable) (calls : Nat)
    (condition : Expression) : Option (List AnalysisError) := do
  let (ty, errors) ← condition.checkWithin widening table calls
  return if ty = .bool ∨ ty = .error then errors
    else errors ++ [.mismatch .bool ty condition.span]

end Expression

namespace Declaration

def checkWithin (widening : Bool) (table : ScopeTable) (calls : Nat) (declaration : Declaration) :
    Option (ScopeTable × List AnalysisError) := do
  let valueErrors ←
    match declaration.value? with
    | some value => do
      let (ty, errors) ← value.checkWithin widening table calls
      pure (errors ++ declaration.ty.checkStore ty widening value.span)
    | none => pure []
  return match table.define ⟨declaration.name.name, declaration.ty, declaration.name.span⟩ with
  | .ok extended => (extended, valueErrors)
  | .error error => (table, valueErrors ++ [error])

end Declaration

namespace Assignment

def checkWithin (widening : Bool) (table : ScopeTable) (calls : Nat) (assignment : Assignment) :
    Option (List AnalysisError) := do
  let (targetTy, targetErrors) := assignment.target.check table
  let (valueTy, valueErrors) ← assignment.value.checkWithin widening table calls
  let (storedTy, stepErrors) :=
    match assignment.op.step? with
    | some op => op.check targetTy valueTy widening assignment.value.span
    | none => (valueTy, [])
  return targetErrors ++ valueErrors ++ stepErrors
    ++ targetTy.checkStore storedTy widening assignment.value.span

end Assignment

namespace Statement

def checkEach (step : ScopeTable → Statement → Option (ScopeTable × List AnalysisError)) :
    ScopeTable → List Statement → Option (ScopeTable × List AnalysisError)
  | table, [] => some (table, [])
  | table, statement :: statements => do
    let (between, errors) ← step table statement
    let (behind, otherErrors) ← checkEach step between statements
    return (behind, errors ++ otherErrors)

/-- Checks a statement with at most so many calls open at once, `calls` of them for statements and
`inner` for expressions. The statements in the header of a counting loop take calls like those in
its body. -/
def checkWithin (widening : Bool) (inner : Nat) :
    Nat → ScopeTable → Statement → Option (ScopeTable × List AnalysisError)
  | 0, _, _ => none
  | _ + 1, table, declaration declared => declared.checkWithin widening table inner
  | _ + 1, table, assignment stored => do
    return (table, ← stored.checkWithin widening table inner)
  | calls + 1, table, ifThen condition branch _ => do
    let conditionErrors ← condition.checkConditionWithin widening table inner
    let (behind, branchErrors) ← checkWithin widening inner calls table.enter branch
    return (behind.leave, conditionErrors ++ branchErrors)
  | calls + 1, table, ifElse condition branch otherwise _ => do
    let conditionErrors ← condition.checkConditionWithin widening table inner
    let (between, branchErrors) ← checkWithin widening inner calls table.enter branch
    let (behind, otherwiseErrors) ←
      checkWithin widening inner calls between.leave.enter otherwise
    return (behind.leave, conditionErrors ++ branchErrors ++ otherwiseErrors)
  | calls + 1, table, whileLoop condition body _ => do
    let conditionErrors ← condition.checkConditionWithin widening table inner
    let (behind, bodyErrors) ← checkWithin widening inner calls table.enter body
    return (behind.leave, conditionErrors ++ bodyErrors)
  | calls + 1, table, forLoop start condition? update? body _ => do
    let (header, startErrors) ←
      checkEach (checkWithin widening inner calls) table.enter start.statement?.toList
    let conditionErrors ←
      match condition? with
      | some condition => condition.checkConditionWithin widening header inner
      | none => pure []
    let (between, updateErrors) ←
      checkEach (checkWithin widening inner calls) header (update?.map assignment).toList
    let (behind, bodyErrors) ← checkWithin widening inner calls between.enter body
    return (behind.leave.leave, startErrors ++ conditionErrors ++ updateErrors ++ bodyErrors)
  | _ + 1, table, print value _ => do
    let (_, errors) ← value.checkWithin widening table inner
    return (table, errors)
  | calls + 1, table, block body _ => do
    let (behind, errors) ← checkEach (checkWithin widening inner calls) table.enter body
    return (behind.leave, errors)
  | _ + 1, table, empty _ => some (table, [])

end Statement

def Analyzer.analyzeWithin (statements expressions : Nat) (analyzer : Analyzer)
    (program : Program) : Option Analyzer := do
  let (scopes, errors) ← Statement.checkEach
    (Statement.checkWithin (!analyzer.strict) expressions statements) analyzer.scopes
    program.statements
  return { analyzer with scopes := scopes, errors := analyzer.errors ++ errors }

/-! ### Enough calls -/

namespace Node

/-- No path from the node is longer. -/
def Short (node : Node) (length : Nat) : Prop :=
  ∀ path, Path node path → path.length ≤ length

variable {node below : Node} {length : Nat}

theorem Short.positive (short : Short node length) : ∃ shorter, length = shorter + 1 := by
  obtain ⟨path, leads⟩ := exists_path node
  have bound := short path leads
  have some := List.length_pos_iff.mpr leads.ne_nil
  exact Nat.exists_eq_succ_of_ne_zero (by omega)

theorem Short.child (short : Short node (length + 1)) (directly : below ∈ node.children) :
    Short below length := by
  intro path leads
  exact Nat.le_of_succ_le_succ (short _ (.step directly leads))

end Node

variable {widening : Bool} {table : ScopeTable} {calls inner : Nat}

namespace Expression

theorem checkWithin_eq_some {tree : Expression} (short : (Node.expression tree).Short calls) :
    tree.checkWithin widening table calls = some (tree.check widening table) := by
  induction tree generalizing calls with
  | literal value span =>
      obtain ⟨calls, rfl⟩ := short.positive
      rfl
  | identifier name =>
      obtain ⟨calls, rfl⟩ := short.positive
      rfl
  | binary op left right span leftHypothesis rightHypothesis =>
      obtain ⟨calls, rfl⟩ := short.positive
      rw [checkWithin, leftHypothesis (short.child List.mem_cons_self),
        rightHypothesis (short.child (List.mem_cons_of_mem _ List.mem_cons_self))]
      rfl
  | unary op operand span inductionHypothesis =>
      obtain ⟨calls, rfl⟩ := short.positive
      rw [checkWithin, inductionHypothesis (short.child List.mem_cons_self)]
      rfl

theorem checkConditionWithin_eq_some {condition : Expression}
    (short : (Node.expression condition).Short calls) :
    condition.checkConditionWithin widening table calls =
      some (condition.checkCondition widening table) := by
  rw [checkConditionWithin, checkWithin_eq_some short]
  rfl

end Expression

namespace Node

/-- At most so many statements are on a path from the node, and no path from an expression directly
below a statement is longer than so many nodes. -/
structure Shallow (node : Node) (statements expressions : Nat) : Prop where
  nested : ∀ path, Path node path → path.countP isStatement ≤ statements
  short : ∀ holder value, Reaches node (.statement holder) →
    .expression value ∈ (statement holder).children → Short (.expression value) expressions

variable {tree : Statement} {below : Node} {statements expressions : Nat}

theorem Shallow.positive (shallow : Shallow (statement tree) statements expressions) :
    ∃ fewer, statements = fewer + 1 := by
  obtain ⟨path, leads⟩ := exists_path (statement tree)
  have bound := shallow.nested path leads
  have counted : 0 < path.countP isStatement := by
    cases leads <;> exact List.countP_pos_iff.mpr ⟨_, List.mem_cons_self, rfl⟩
  exact Nat.exists_eq_succ_of_ne_zero (by omega)

theorem Shallow.child (shallow : Shallow (statement tree) (statements + 1) expressions)
    (directly : below ∈ (statement tree).children) : Shallow below statements expressions := by
  refine ⟨fun path leads => ?_, fun holder value reaches holds =>
    shallow.short holder value (.further directly reaches) holds⟩
  have bound := shallow.nested _ (.step directly leads)
  rw [List.countP_cons_of_pos rfl] at bound
  omega

theorem Shallow.value {value : Expression}
    (shallow : Shallow (statement tree) statements expressions)
    (directly : .expression value ∈ (statement tree).children) :
    Short (.expression value) expressions :=
  shallow.short tree value .here directly

end Node

theorem Declaration.checkWithin_eq_some {declared : Declaration}
    (short : ∀ value, declared.value? = some value → (Node.expression value).Short inner) :
    declared.checkWithin widening table inner = some (declared.check widening table) := by
  obtain ⟨ty, name, value?, span⟩ := declared
  cases value? with
  | none => rfl
  | some value =>
      rw [Declaration.checkWithin, Declaration.check]
      simp only [Expression.checkWithin_eq_some (short value rfl)]
      rfl

theorem Assignment.checkWithin_eq_some {stored : Assignment}
    (short : (Node.expression stored.value).Short inner) :
    stored.checkWithin widening table inner = some (stored.check widening table) := by
  rw [Assignment.checkWithin, Expression.checkWithin_eq_some short]
  rfl

namespace Statement

theorem checkEach_eq_some
    {step : ScopeTable → Statement → Option (ScopeTable × List AnalysisError)}
    {statements : List Statement}
    (agrees : ∀ statement ∈ statements, ∀ table,
      step table statement = some (statement.check widening table)) :
    checkEach step table statements = some (checkAll widening table statements) := by
  induction statements generalizing table with
  | nil => rfl
  | cons statement statements inductionHypothesis =>
      obtain ⟨first, others⟩ := List.forall_mem_cons.mp agrees
      rw [checkEach, first, checkAll]
      simp only [Option.bind_eq_bind, Option.bind_some, inductionHypothesis others]
      rfl

theorem checkAll_start (start : LoopStart) :
    checkAll widening table start.statement?.toList = start.check widening table := by
  cases start <;> simp [LoopStart.statement?, LoopStart.check, checkAll, check]

theorem checkAll_update (update? : Option Assignment) :
    checkAll widening table (update?.map assignment).toList =
      (table, (update?.map (·.check widening table)).getD []) := by
  cases update? <;> simp [checkAll, check]

theorem checkWithin_eq_some {tree : Statement}
    (shallow : (Node.statement tree).Shallow calls inner) :
    checkWithin widening inner calls table tree = some (tree.check widening table) := by
  -- on the calls that are left: every statement below takes one
  induction calls generalizing tree table with
  | zero =>
      obtain ⟨fewer, impossible⟩ := shallow.positive
      cases impossible
  | succ calls inductionHypothesis =>
      have nested (below : Statement) (directly : .statement below ∈ (Node.statement tree).children)
          (table : ScopeTable) :
          checkWithin widening inner calls table below = some (below.check widening table) :=
        inductionHypothesis (shallow.child directly)
      cases tree with
      | declaration declared =>
          refine Declaration.checkWithin_eq_some fun value holds => shallow.value ?_
          simp [Node.children, holds]
      | assignment stored =>
          rw [checkWithin, Assignment.checkWithin_eq_some (shallow.value (by simp [Node.children]))]
          rfl
      | ifThen condition branch span =>
          rw [checkWithin, Expression.checkConditionWithin_eq_some
            (shallow.value (by simp [Node.children]))]
          simp only [Option.bind_eq_bind, Option.bind_some,
            nested branch (by simp [Node.children])]
          rfl
      | ifElse condition branch otherwise span =>
          rw [checkWithin, Expression.checkConditionWithin_eq_some
            (shallow.value (by simp [Node.children]))]
          simp only [Option.bind_eq_bind, Option.bind_some,
            nested branch (by simp [Node.children]),
            nested otherwise (by simp [Node.children])]
          rfl
      | whileLoop condition body span =>
          rw [checkWithin, Expression.checkConditionWithin_eq_some
            (shallow.value (by simp [Node.children]))]
          simp only [Option.bind_eq_bind, Option.bind_some,
            nested body (by simp [Node.children])]
          rfl
      | forLoop start condition? update? body span =>
          have started : checkEach (checkWithin widening inner calls) table.enter
              start.statement?.toList = some (start.check widening table.enter) := by
            rw [← checkAll_start]
            refine checkEach_eq_some fun first member => nested first ?_
            simp [Node.children, Option.mem_toList.mp member]
          have updated (header : ScopeTable) :
              checkEach (checkWithin widening inner calls) header (update?.map assignment).toList =
                some (header, (update?.map (·.check widening header)).getD []) := by
            rw [← checkAll_update]
            refine checkEach_eq_some fun last member => nested last ?_
            obtain ⟨stored, present, rfl⟩ := Option.mem_map.mp (Option.mem_toList.mp member)
            simp [Node.children, Option.mem_def.mp present]
          have bodyWithin := nested body (by simp [Node.children])
          cases condition? with
          | none =>
              simp only [checkWithin, started, updated, bodyWithin, Option.bind_eq_bind,
                Option.bind_some, Option.pure_def]
              rfl
          | some condition =>
              have short : (Node.expression condition).Short inner :=
                shallow.value (by simp [Node.children])
              simp only [checkWithin, started, updated, bodyWithin,
                Expression.checkConditionWithin_eq_some short, Option.bind_eq_bind,
                Option.bind_some]
              rfl
      | print value span =>
          rw [checkWithin, Expression.checkWithin_eq_some
            (shallow.value (by simp [Node.children]))]
          rfl
      | block body span =>
          rw [checkWithin, checkEach_eq_some fun statement member =>
            nested statement (List.mem_map_of_mem member)]
          rfl
      | empty span => rfl

end Statement

/-! ### Programs that were read -/

variable {tokens : List Token} {program : Program}

theorem Program.shallow_of_ofTokens (read : Program.ofTokens tokens = .ok program) :
    ∀ outer ∈ program.statements, (Node.statement outer).Shallow 128 9026 := by
  intro outer member
  refine ⟨fun path leads => ?_, fun holder value reaches directly path leads => ?_⟩
  · obtain ⟨onward, within, one, _⟩ := path_within read ⟨outer, member, leads⟩
    rw [one]
    exact within.statements
  · obtain ⟨binary, prefixes, length⟩ :=
      completes_counts read ⟨outer, member, holder, reaches, directly⟩ leads
    rw [Grammar.prefixBudget_kept] at prefixes
    rw [maxOperators] at binary
    omega

/-- Recursion over a program that was read is bounded, whatever the number of its tokens: its
statements nest at most 128 deep, the paths through its complete expressions have at most 9026
nodes, and so checking never has more calls open at once. -/
theorem Program.recursion_bounded (read : Program.ofTokens tokens = .ok program) :
    (∀ path, program.Path path → path.countP Node.isStatement ≤ 128) ∧
      (∀ value, program.Completes value → ∀ path, Node.Path (.expression value) path →
        path.length ≤ 9026 ∧ path.countP Node.isBinary ≤ 1024 ∧
          path.countP Node.isUnary ≤ 8001 ∧ path.countP Node.isLeaf = 1) ∧
      ∀ analyzer : Analyzer,
        analyzer.analyzeWithin 128 9026 program = some (analyzer.analyze program) := by
  have shallow := shallow_of_ofTokens read
  refine ⟨?_, fun value completes path leads => ?_, fun analyzer => ?_⟩
  · rintro path ⟨outer, member, leads⟩
    exact (shallow outer member).nested path leads
  · obtain ⟨binary, prefixes, length⟩ := completes_counts read completes leads
    rw [Grammar.prefixBudget_kept] at prefixes
    rw [maxOperators] at binary
    exact ⟨by omega, binary, prefixes, leads.countP_isLeaf⟩
  · rw [Analyzer.analyzeWithin, Statement.checkEach_eq_some fun outer member table =>
      Statement.checkWithin_eq_some (shallow outer member)]
    rfl

/-- All of these nodes are met on one path, behind the two statements that lead to it. -/
theorem Program.recursion_bounded_attained :
    ∃ tokens program path, Program.ofTokens tokens = .ok program ∧ program.Path path ∧
      path.countP Node.isStatement = 2 ∧ path.countP Node.isUnary = 8001 ∧
      path.length = 2 + 9026 ∧
      ∀ analyzer : Analyzer,
        analyzer.analyzeWithin 128 9026 program = some (analyzer.analyze program) := by
  obtain ⟨program, path, read, leads, statements, prefixes, length⟩ :=
    Grammar.tallestTower_read (Nat.le_refl maxOperators)
  rw [Grammar.prefixBudget_kept] at prefixes length
  exact ⟨_, program, path, read, leads, statements, prefixes, length,
    (recursion_bounded read).2.2⟩

end StagedAnalysis
