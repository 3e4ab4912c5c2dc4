import Mathlib.Algebra.BigOperators.Intervals
import Mathlib.Algebra.Order.BigOperators.Group.Finset
import Mathlib.Data.List.TakeWhile
import StagedAnalysis.Proofs.Reading.Programs
import StagedAnalysis.Proofs.Trees
/-!
How deep the trees of programs go.

The limit on depth counts operators in front of an operand only while they are collected: in the
parentheses behind a run of them all levels of the run are free again. So the limit holds for each
run by itself, and the operators on one path add up over the levels of parentheses.
-/
namespace StagedAnalysis

open Token (Kind)

namespace Grammar

variable {limits : Limits} {level : Nat} {word : List Kind} {path : List Node}

/-- The operators in front of operands that a path may meet on so many levels, where the innermost
level has room for none and each level around it for one more. -/
def prefixBudget (levels : Nat) : Nat :=
  ∑ run ∈ Finset.range levels, run

theorem prefixBudget_succ (levels : Nat) :
    prefixBudget (levels + 1) = prefixBudget levels + levels :=
  Finset.sum_range_succ _ _

theorem prefixBudget_mono {few many : Nat} (fewer : few ≤ many) :
    prefixBudget few ≤ prefixBudget many :=
  Finset.sum_le_sum_of_subset (Finset.range_mono fewer)

/-- Each level but the innermost makes room for at least one operator. -/
theorem prefixBudget_add_le {few many : Nat} (positive : 0 < few) (fewer : few ≤ many) :
    prefixBudget few + (many - few) ≤ prefixBudget many := by
  induction many, fewer using Nat.le_induction with
  | base => omega
  | succ many fewer inductionHypothesis =>
      rw [prefixBudget_succ]
      omega

theorem prefixBudget_kept : prefixBudget (maxDepth - 1) = 8001 :=
  Finset.sum_range_id _

/-! ### Expressions -/

/-- The levels from the one where the phrase may have operators in front of an operand. -/
def Phrase.levelsLeft (limits : Limits) (level : Nat) : Phrase → Nat
  | .operand => limits.depth - level
  | _ => limits.depth + 1 - level

theorem operandOf_levelsLeft (precedence : Precedence) :
    (operandOf precedence).levelsLeft limits level = limits.depth + 1 - level := by
  cases precedence <;> rfl

theorem path_foldr_unary {tree : Expression} (ops : List UnaryOp)
    (leads : Node.Path
      (.expression (ops.foldr (fun op operand => .unary op operand .origin) tree)) path) :
    ∃ onward, Node.Path (.expression tree) onward ∧
      path.countP Node.isUnary = ops.length + onward.countP Node.isUnary := by
  induction ops generalizing path with
  | nil => exact ⟨path, leads, (Nat.zero_add _).symm⟩
  | cons op ops inductionHypothesis =>
      obtain ⟨further, rest, rfl⟩ := leads.of_unary
      obtain ⟨onward, inner, counted⟩ := inductionHypothesis rest
      refine ⟨onward, inner, ?_⟩
      rw [List.countP_cons_of_pos rfl, counted, List.length_cons]
      omega

theorem expresses_path {phrase : Phrase} {tree : Expression}
    (derived : Expresses limits phrase level word tree)
    (leads : Node.Path (.expression tree) path) :
    path.countP Node.isUnary ≤ prefixBudget (phrase.levelsLeft limits level) := by
  induction derived generalizing path with
  | expression _ _ inductionHypothesis => exact inductionHypothesis leads
  | single _ inductionHypothesis =>
      have inner := inductionHypothesis leads
      rwa [operandOf_levelsLeft] at inner
  | join _ _ _ leftHypothesis rightHypothesis =>
      obtain ⟨onward, rest, rfl⟩ := leads.of_binary
      rw [List.countP_cons_of_neg Bool.false_ne_true]
      rcases rest with left | right
      · exact leftHypothesis left
      · have inner := rightHypothesis right
        rwa [operandOf_levelsLeft] at inner
  | @prefixed level _ _ ops fits _ inductionHypothesis =>
      obtain ⟨onward, rest, counted⟩ := path_foldr_unary ops leads
      have inner := inductionHypothesis rest
      have levels : limits.depth + 1 - level = limits.depth - level + 1 := by omega
      simp only [Phrase.levelsLeft] at inner ⊢
      rw [levels, prefixBudget_succ, counted]
      omega
  | @atom _ _ tree single =>
      have childless : (Node.expression tree).children = [] := by cases single <;> rfl
      rw [leads.of_childless childless]
      cases single <;> exact Nat.zero_le _
  | parentheses _ inductionHypothesis =>
      have inner := inductionHypothesis leads
      simpa only [Phrase.levelsLeft, Nat.add_sub_add_right] using inner

/-! ### Statements -/

inductive Part (limits : Limits) (level : Nat) : Node → Prop
  | name {written : Identifier} : Part limits level (.name written)
  | value {word : List Kind} {tree : Expression} (complete : Complete limits level word tree) :
      Part limits level (.expression tree)

/-- What stands directly below a statement of a level. The statements in the header of a counting
loop have no level of their own. -/
inductive Below (limits : Limits) (level : Nat) : Node → Prop
  | statement {word : List Kind} {tree : Statement} (derived : States limits (level + 1) word tree) :
      Below limits level (.statement tree)
  | header {tree : Statement} (fits : level < limits.depth)
      (parts : ∀ child ∈ (Node.statement tree).children, Part limits level child) :
      Below limits level (.statement tree)
  | part {node : Node} (part : Part limits level node) : Below limits level node

theorem declares_parts {declared : Declaration} (derived : Declares limits level word declared) :
    ∀ child ∈ (Node.statement (.declaration declared)).children, Part limits level child := by
  cases derived with
  | plain name names => exact List.forall_mem_singleton.mpr .name
  | initialized name names derived =>
      exact List.forall_mem_cons.mpr ⟨.name, List.forall_mem_singleton.mpr (.value derived)⟩

theorem stores_parts {stored : Assignment} (derived : Stores limits level word stored) :
    ∀ child ∈ (Node.statement (.assignment stored)).children, Part limits level child := by
  cases derived with
  | store name op derived =>
      exact List.forall_mem_cons.mpr ⟨.name, List.forall_mem_singleton.mpr (.value derived)⟩

theorem statesAll_member {trees : List Statement} (derived : StatesAll limits level word trees) :
    ∀ tree ∈ trees, ∃ part, States limits level part tree := by
  induction trees generalizing word with
  | nil => exact List.forall_mem_nil _
  | cons tree trees inductionHypothesis =>
      cases derived with
      | cons derived othersDerived =>
          exact List.forall_mem_cons.mpr ⟨⟨_, derived⟩, inductionHypothesis othersDerived⟩

theorem states_below {tree : Statement} (derived : States limits level word tree) :
    ∀ child ∈ (Node.statement tree).children, Below limits level child := by
  cases derived with
  | declaration fits derived => exact fun child below => .part (declares_parts derived child below)
  | assignment fits derived => exact fun child below => .part (stores_parts derived child below)
  | ifThen fits tested derived =>
      exact List.forall_mem_cons.mpr ⟨.part (.value tested),
        List.forall_mem_singleton.mpr (.statement derived)⟩
  | ifElse fits tested derived closed otherDerived =>
      exact List.forall_mem_cons.mpr ⟨.part (.value tested), List.forall_mem_cons.mpr
        ⟨.statement derived, List.forall_mem_singleton.mpr (.statement otherDerived)⟩⟩
  | whileLoop fits tested derived =>
      exact List.forall_mem_cons.mpr ⟨.part (.value tested),
        List.forall_mem_singleton.mpr (.statement derived)⟩
  | forLoop fits started tested stepped derived =>
      have inside := states_level derived
      simp only [Node.children, List.forall_mem_append]
      refine ⟨⟨⟨?_, ?_⟩, ?_⟩, List.forall_mem_singleton.mpr (.statement derived)⟩
      · cases started with
        | nothing => exact List.forall_mem_nil _
        | declaration derived =>
            exact List.forall_mem_singleton.mpr (.header inside (declares_parts derived))
        | assignment derived =>
            exact List.forall_mem_singleton.mpr (.header inside (stores_parts derived))
      · cases tested with
        | absent => exact List.forall_mem_nil _
        | present derived => exact List.forall_mem_singleton.mpr (.part (.value derived))
      · cases stepped with
        | absent => exact List.forall_mem_nil _
        | present derived =>
            exact List.forall_mem_singleton.mpr (.header inside (stores_parts derived))
  | print fits derived => exact List.forall_mem_singleton.mpr (.part (.value derived))
  | block fits derived =>
      rintro child below
      obtain ⟨inner, member, rfl⟩ := List.mem_map.mp below
      obtain ⟨part, derived⟩ := statesAll_member derived inner member
      exact .statement derived
  | empty fits => exact List.forall_mem_nil _

/-! ### Paths through statements -/

/-- What a path may meet below a statement of a level: a statement needs a level of its own, or is
in the header of the loop directly above the end of the path. -/
structure Within (limits : Limits) (level : Nat) (path : List Node) : Prop where
  statements : path.countP Node.isStatement + level ≤ limits.depth
  prefixes : path.countP Node.isUnary ≤ prefixBudget (limits.depth - level)
  innermost : path.countP Node.isUnary ≤
    prefixBudget (limits.depth + 1 - (level + path.countP Node.isStatement))

theorem Within.nil (fits : level ≤ limits.depth) : Within limits level [] :=
  ⟨by simpa using fits, Nat.zero_le _, Nat.zero_le _⟩

theorem Within.of_part {node : Node} (fits : level ≤ limits.depth) (part : Part limits level node)
    (leads : Node.Path node path) :
    Within limits level path ∧ path.countP Node.isStatement = 0 := by
  cases part with
  | name =>
      rw [leads.of_childless rfl]
      exact ⟨⟨(Nat.zero_add level).symm ▸ fits, Nat.zero_le _, Nat.zero_le _⟩, rfl⟩
  | value complete =>
      have none := leads.counts.1
      have prefixes := expresses_path complete.derived leads
      simp only [Phrase.levelsLeft, Nat.add_sub_add_right] at prefixes
      have innermost := prefixes.trans (prefixBudget_mono (Nat.sub_le_sub_right
        (Nat.le_succ limits.depth) level))
      exact ⟨⟨by omega, prefixes, by rwa [none]⟩, none⟩

/-- A statement in the header of a loop, of the level of the loop. -/
theorem Within.of_header {tree : Statement} (fits : level < limits.depth)
    (parts : ∀ child ∈ (Node.statement tree).children, Part limits level child)
    (leads : Node.Path (.statement tree) path) : Within limits level path := by
  have counted (onward : List Node) (inner : Within limits level onward)
      (none : onward.countP Node.isStatement = 0) :
      Within limits level (.statement tree :: onward) := by
    have one : (Node.statement tree :: onward).countP Node.isStatement = 1 := by
      rw [List.countP_cons_of_pos rfl, none]
    have same : (Node.statement tree :: onward).countP Node.isUnary =
        onward.countP Node.isUnary := List.countP_cons_of_neg Bool.false_ne_true
    refine ⟨by omega, same ▸ inner.prefixes, ?_⟩
    rw [same, one, Nat.add_sub_add_right]
    exact inner.prefixes
  cases leads with
  | leaf ends => exact counted [] (.nil fits.le) rfl
  | step below onward =>
      obtain ⟨inner, none⟩ := Within.of_part fits.le (parts _ below) onward
      exact counted _ inner none

/-- A statement one level further in. -/
theorem Within.outwards {tree : Statement} (inner : Within limits (level + 1) path) :
    Within limits level (.statement tree :: path) := by
  obtain ⟨statements, prefixes, innermost⟩ := inner
  have one : (Node.statement tree :: path).countP Node.isStatement =
      path.countP Node.isStatement + 1 := List.countP_cons_of_pos rfl
  have same : (Node.statement tree :: path).countP Node.isUnary = path.countP Node.isUnary :=
    List.countP_cons_of_neg Bool.false_ne_true
  refine ⟨by omega, ?_, ?_⟩
  · rw [same]
    exact prefixes.trans (prefixBudget_mono (by omega))
  · rw [same, one]
    exact innermost.trans (prefixBudget_mono (by omega))

theorem states_path {tree : Statement} (derived : States limits level word tree)
    (leads : Node.Path (.statement tree) path) :
    ∃ onward, path = .statement tree :: onward ∧ Within limits level onward := by
  -- on the path: what stands below a statement is a statement one level further in, or ends soon
  generalize start : Node.statement tree = node at leads
  induction leads generalizing level word tree with
  | leaf ends =>
      exact ⟨[], rfl, .nil (states_level derived)⟩
  | @step node child path below onward inductionHypothesis =>
      subst start
      refine ⟨path, rfl, ?_⟩
      cases states_below derived child below with
      | statement derived =>
          obtain ⟨further, rfl, inner⟩ := inductionHypothesis derived rfl
          exact inner.outwards
      | header fits parts => exact .of_header fits parts onward
      | part part => exact (Within.of_part (states_level derived) part onward).1

theorem part_complete {value : Expression} (part : Part limits level (.expression value)) :
    ∃ word, Complete limits level word value := by
  cases part with
  | value complete => exact ⟨_, complete⟩

theorem Part.isStatement_eq_false {node : Node} (part : Part limits level node) :
    node.isStatement = false := by
  cases part <;> rfl

/-- The expressions directly below a statement that is reached from a statement of a level are
complete expressions of that level or of one further in. -/
theorem states_completes {tree holder : Statement} {value : Expression}
    (derived : States limits level word tree)
    (reaches : Node.Reaches (.statement tree) (.statement holder))
    (directly : .expression value ∈ (Node.statement holder).children) :
    ∃ inner part, level ≤ inner ∧ Complete limits inner part value := by
  generalize start : Node.statement tree = node at reaches
  generalize target : Node.statement holder = final at reaches directly
  induction reaches generalizing level word tree with
  | here =>
      subst start
      cases states_below derived _ directly with
      | part part =>
          obtain ⟨part, complete⟩ := part_complete part
          exact ⟨level, part, Nat.le_refl _, complete⟩
  | @further node child final below onward inductionHypothesis =>
      subst start
      cases states_below derived child below with
      | statement derived =>
          obtain ⟨inner, part, deeper, complete⟩ := inductionHypothesis derived rfl target directly
          exact ⟨inner, part, by omega, complete⟩
      | header fits parts =>
          cases onward with
          | here =>
              obtain ⟨part, complete⟩ := part_complete (parts _ directly)
              exact ⟨level, part, Nat.le_refl _, complete⟩
          | further below onward =>
              subst target
              cases onward.isStatement_eq_false (parts _ below).isStatement_eq_false
      | part part =>
          subst target
          cases onward.isStatement_eq_false part.isStatement_eq_false

/-! ### Towers -/

/-- Runs of minus signs in front of an operand, each run but the first in the parentheses behind
the one before it. -/
def towerWord : List Nat → List Kind
  | [] => [.int 1]
  | run :: runs =>
    List.replicate run (.symbol .minus) ++
      .symbol .leftParen :: (towerWord runs ++ [.symbol .rightParen])

def towerTree : List Nat → Expression
  | [] => .literal (.int 1) .origin
  | run :: runs =>
    (List.replicate run UnaryOp.neg).foldr (fun op operand => .unary op operand .origin)
      (towerTree runs)

def towerFits (depth : Nat) : Nat → List Nat → Bool
  | level, [] => level ≤ depth
  | level, run :: runs => level + run ≤ depth && towerFits depth (level + 1) runs

def sumWord (word : List Kind) : Nat → List Kind
  | 0 => word
  | count + 1 => sumWord word count ++ .symbol .plus :: [.int 1]

def sumTree (tree : Expression) : Nat → Expression
  | 0 => tree
  | count + 1 => .binary .add (sumTree tree count) (.literal (.int 1) .origin) .origin

/-- The longest runs for a tower with so many levels left behind the one where it begins. -/
def longestRuns : Nat → List Nat
  | 0 => []
  | levels + 1 => (levels + 1) :: longestRuns levels

theorem longestRuns_sum (levels : Nat) : (longestRuns levels).sum = prefixBudget (levels + 1) := by
  induction levels with
  | zero => rfl
  | succ levels inductionHypothesis =>
      rw [longestRuns, List.sum_cons, inductionHypothesis, prefixBudget_succ (levels + 1),
        Nat.add_comm]

theorem longestRuns_fit {levels depth : Nat} (enough : level + levels ≤ depth) :
    towerFits depth level (longestRuns levels) = true := by
  induction levels generalizing level with
  | zero => simpa [longestRuns, towerFits] using enough
  | succ levels inductionHypothesis =>
      simp only [longestRuns, towerFits, Bool.and_eq_true, decide_eq_true_eq]
      exact ⟨enough, inductionHypothesis (by omega)⟩

theorem operatorCount_towerTree (runs : List Nat) : (towerTree runs).operatorCount = 0 := by
  induction runs with
  | nil => rfl
  | cons run runs inductionHypothesis =>
      rw [towerTree]
      induction run with
      | zero => exact inductionHypothesis
      | succ run shorter => exact shorter

theorem operatorCount_sumTree (tree : Expression) (count : Nat) :
    (sumTree tree count).operatorCount = tree.operatorCount + count := by
  induction count with
  | zero => rfl
  | succ count inductionHypothesis =>
      rw [sumTree, Expression.operatorCount, inductionHypothesis]
      rfl

theorem expresses_of_sum {tree : Expression} (fits : level ≤ limits.depth)
    (derived : Expresses limits (.joined .sum) level word tree) :
    Expresses limits .expression level word tree :=
  .expression fits (.single (.single (.single (.single derived))))

theorem sum_of_prefixed {tree : Expression}
    (derived : Expresses limits .prefixed level word tree) :
    Expresses limits (.joined .sum) level word tree :=
  .single (.single derived)

theorem towerFits_level {runs : List Nat} (fits : towerFits limits.depth level runs = true) :
    level ≤ limits.depth := by
  cases runs with
  | nil => simpa [towerFits] using fits
  | cons run runs =>
      simp only [towerFits, Bool.and_eq_true, decide_eq_true_eq] at fits
      omega

theorem tower_prefixed {runs : List Nat} (fits : towerFits limits.depth level runs = true) :
    Expresses limits .prefixed level (towerWord runs) (towerTree runs) := by
  induction runs generalizing level with
  | nil => exact .prefixed [] (towerFits_level fits) (.atom (.int 1))
  | cons run runs inductionHypothesis =>
      simp only [towerFits, Bool.and_eq_true, decide_eq_true_eq] at fits
      have inside :=
        expresses_of_sum (towerFits_level fits.2) (sum_of_prefixed (inductionHypothesis fits.2))
      have derived := Expresses.prefixed (List.replicate run UnaryOp.neg)
        (by simpa using fits.1) (.parentheses inside)
      rwa [List.map_replicate] at derived

theorem sum_expresses {tree : Expression} (fits : level ≤ limits.depth)
    (derived : Expresses limits .prefixed level word tree) (count : Nat) :
    Expresses limits (.joined .sum) level (sumWord word count) (sumTree tree count) := by
  induction count with
  | zero => exact sum_of_prefixed derived
  | succ count inductionHypothesis =>
      have one : Expresses limits (.joined .product) level [.int 1] (.literal (.int 1) .origin) :=
        .single (.prefixed [] fits (.atom (.int 1)))
      have adds : BinaryOp.add.precedence = .sum := rfl
      exact .join adds inductionHypothesis one

theorem tower_path (runs : List Nat) :
    ∃ path, Node.Path (.expression (towerTree runs)) path ∧
      path.countP Node.isUnary = runs.sum := by
  induction runs with
  | nil => exact ⟨_, .leaf rfl, rfl⟩
  | cons run runs inductionHypothesis =>
      rw [towerTree, List.sum_cons]
      induction run with
      | zero => simpa using inductionHypothesis
      | succ run shorter =>
          obtain ⟨path, leads, counted⟩ := shorter
          refine ⟨_, .step List.mem_cons_self leads, ?_⟩
          rw [List.countP_cons_of_pos rfl, counted]
          omega

theorem sum_path {tree : Expression} (leads : Node.Path (.expression tree) path) (count : Nat) :
    ∃ longer, Node.Path (.expression (sumTree tree count)) longer ∧
      longer.countP Node.isUnary = path.countP Node.isUnary ∧
      longer.length = path.length + count := by
  induction count with
  | zero => exact ⟨path, leads, rfl, rfl⟩
  | succ count inductionHypothesis =>
      obtain ⟨longer, leads, counted, length⟩ := inductionHypothesis
      refine ⟨_, .step List.mem_cons_self leads, ?_, ?_⟩
      · rw [List.countP_cons_of_neg Bool.false_ne_true, counted]
      · rw [List.length_cons, length]
        rfl

/-- A counting loop that begins with a store of a tower, with so many numbers added to it, and has
nothing else in it. -/
def towerLoopWord (runs : List Nat) (count : Nat) : List Kind :=
  [.keyword .forWord, .symbol .leftParen, .identifier "x", .symbol .assign] ++
    sumWord (towerWord runs) count ++
      [.symbol .semicolon, .symbol .semicolon, .symbol .rightParen, .symbol .semicolon]

def towerTokens (runs : List Nat) (count : Nat) : List Token :=
  (towerLoopWord runs count).map fun kind => ⟨kind, "", .origin⟩

def towerLoop (runs : List Nat) (count : Nat) : Statement :=
  .forLoop (.assignment ⟨⟨"x", .origin⟩, .set, sumTree (towerTree runs) count, .origin⟩) none none
    (.empty .origin) .origin

theorem towerWord_goesOn (runs : List Nat) : .endOfInput ∉ towerWord runs := by
  induction runs with
  | nil => simp [towerWord]
  | cons run runs inductionHypothesis => simp [towerWord, inductionHypothesis]

theorem sumWord_goesOn (goesOn : .endOfInput ∉ word) (count : Nat) :
    .endOfInput ∉ sumWord word count := by
  induction count with
  | zero => exact goesOn
  | succ count inductionHypothesis => simp [sumWord, inductionHypothesis]

theorem towerLoop_states {runs : List Nat} {count : Nat}
    (fits : towerFits limits.depth 2 runs = true) (few : count ≤ limits.operators) :
    States limits 1 (towerLoopWord runs count) (towerLoop runs count) := by
  have inside := towerFits_level fits
  have value : Complete limits 1 (sumWord (towerWord runs) count)
      (sumTree (towerTree runs) count) :=
    ⟨expresses_of_sum inside (sum_expresses inside (tower_prefixed fits) count),
      by simpa [operatorCount_sumTree, operatorCount_towerTree] using few⟩
  have started := Starts.assignment (.store "x" .set value)
  have derived := States.forLoop (by omega) started .absent .absent (.empty inside)
  simpa [towerLoopWord, towerLoop, AssignOp.sign] using derived

theorem towerLoop_path (runs : List Nat) (count : Nat) :
    ∃ path, Node.Path (.statement (towerLoop runs count)) path ∧
      path.countP Node.isStatement = 2 ∧ path.countP Node.isUnary = runs.sum ∧
      path.length = count + runs.sum + 3 := by
  obtain ⟨path, leads, counted⟩ := tower_path runs
  obtain ⟨longer, longerLeads, same, length⟩ := sum_path leads count
  have shape := leads.counts
  rw [operatorCount_towerTree] at shape
  have outside := longerLeads.counts.1
  refine ⟨_, .step List.mem_cons_self (.step (List.mem_cons_of_mem _ List.mem_cons_self)
    longerLeads), ?_, ?_, ?_⟩
  · rw [List.countP_cons_of_pos rfl, List.countP_cons_of_pos rfl, outside]
  · rw [List.countP_cons_of_neg Bool.false_ne_true, List.countP_cons_of_neg Bool.false_ne_true,
      same, counted]
  · simp only [List.length_cons]
    omega

/-- Every word of the grammar is the kinds of tokens that are read, whatever their places. -/
theorem kinds_read {tree : Program} (goesOn : .endOfInput ∉ word)
    (derived : Derives .kept word tree) :
    ∃ program, Program.ofTokens (word.map fun kind => ⟨kind, "", .origin⟩) = .ok program ∧
      program.unplaced = tree := by
  have ahead : (ParseState.ofTokens (word.map fun kind => ⟨kind, "", .origin⟩)).ahead = word := by
    rw [ParseState.ahead_ofTokens, List.takeWhile_eq_self_iff.mpr, List.map_map]
    · exact List.map_id _
    · rw [List.forall_mem_map]
      intro kind member
      have different : kind ≠ .endOfInput := ne_of_mem_of_not_mem member goesOn
      simpa [Token.isEnd] using different
  rw [← ahead] at derived
  obtain ⟨program, behind, given, unplaced⟩ :=
    Parse.program_accepts (ParseState.ofTokens_ready _) rfl derived
  exact ⟨program, Program.ofTokens_eq_ok_iff.mpr ⟨behind, given⟩, unplaced⟩

/-- A tower is read as a program if all of its runs fit by themselves. -/
theorem towerTokens_read {runs : List Nat} {count : Nat}
    (fits : towerFits maxDepth 2 runs = true) (few : count ≤ maxOperators) :
    ∃ program path, Program.ofTokens (towerTokens runs count) = .ok program ∧
      program.Path path ∧ path.countP Node.isStatement = 2 ∧
      path.countP Node.isUnary = runs.sum ∧ path.length = count + runs.sum + 3 := by
  have goesOn : .endOfInput ∉ towerLoopWord runs count := by
    have inside := sumWord_goesOn (towerWord_goesOn runs) count
    simp [towerLoopWord, inside]
  have derived : Derives .kept (towerLoopWord runs count) ⟨[towerLoop runs count]⟩ := by
    have loop : States .kept 1 (towerLoopWord runs count) (towerLoop runs count) :=
      towerLoop_states fits few
    have whole := StatesAll.cons loop .nil
    rwa [List.append_nil] at whole
  obtain ⟨program, read, unplaced⟩ := kinds_read goesOn derived
  obtain ⟨path, leads, statements, prefixes, length⟩ := towerLoop_path runs count
  have bare : program.unplaced.Path path := by
    rw [unplaced]
    exact ⟨_, List.mem_cons_self, leads⟩
  obtain ⟨placed, placedLeads, rfl⟩ := bare.of_unplaced
  rw [Node.countP_isStatement_unplaced] at statements
  rw [Node.countP_isUnary_unplaced] at prefixes
  rw [List.length_map] at length
  exact ⟨program, placed, read, placedLeads, statements, prefixes, length⟩

theorem tallestTower_read {count : Nat} (few : count ≤ maxOperators) :
    ∃ program path,
      Program.ofTokens (towerTokens (longestRuns (maxDepth - 2)) count) = .ok program ∧
      program.Path path ∧ path.countP Node.isStatement = 2 ∧
      path.countP Node.isUnary = prefixBudget (maxDepth - 1) ∧
      path.length = count + prefixBudget (maxDepth - 1) + 3 := by
  have sum : (longestRuns (maxDepth - 2)).sum = prefixBudget (maxDepth - 1) :=
    longestRuns_sum (maxDepth - 2)
  have fits : towerFits maxDepth 2 (longestRuns (maxDepth - 2)) = true :=
    longestRuns_fit (Nat.le_refl maxDepth)
  rw [← sum]
  exact towerTokens_read fits few

end Grammar

open Grammar

variable {tokens : List Token} {program : Program}

/-- The statements of a program that is read are statements of level one. -/
theorem Program.states_of_ofTokens (read : Program.ofTokens tokens = .ok program) :
    ∀ outer ∈ program.statements, ∃ word, States .kept 1 word outer.unplaced := by
  obtain ⟨behind, given⟩ := ofTokens_eq_ok_iff.mp read
  have derived : StatesAll .kept 1 _ (Statement.unplacedAll program.statements) :=
    Parse.program_reads (ParseState.ofTokens_ready tokens) rfl given
  intro outer member
  rw [Statement.unplacedAll_eq_map] at derived
  exact statesAll_member derived outer.unplaced (List.mem_map_of_mem member)

theorem Program.path_within (read : Program.ofTokens tokens = .ok program) {path : List Node}
    (leads : program.Path path) :
    ∃ onward, Within .kept 1 onward ∧
      path.countP Node.isStatement = onward.countP Node.isStatement + 1 ∧
      path.countP Node.isUnary = onward.countP Node.isUnary := by
  obtain ⟨outer, member, leads⟩ := leads
  obtain ⟨word, derived⟩ := states_of_ofTokens read outer member
  obtain ⟨onward, shape, within⟩ := states_path derived leads.unplaced
  have statements := congrArg (List.countP Node.isStatement) shape
  have prefixes := congrArg (List.countP Node.isUnary) shape
  rw [Node.countP_isStatement_unplaced, List.countP_cons_of_pos rfl] at statements
  rw [Node.countP_isUnary_unplaced, List.countP_cons_of_neg Bool.false_ne_true] at prefixes
  exact ⟨onward, within, statements, prefixes⟩

/-- The statements on a path of a program that is read keep the limit on depth. The operators in
front of operands keep it run by run, so that a path may have far more of them. -/
theorem Program.path_counts (read : Program.ofTokens tokens = .ok program) {path : List Node}
    (leads : program.Path path) :
    path.countP Node.isStatement ≤ maxDepth ∧
      path.countP Node.isUnary ≤ prefixBudget (maxDepth - 1) ∧
      path.countP Node.isStatement + path.countP Node.isUnary ≤
        prefixBudget (maxDepth - 1) + 2 := by
  obtain ⟨onward, ⟨statements, prefixes, innermost⟩, one, same⟩ := path_within read leads
  simp only [Limits.kept] at statements prefixes innermost
  rw [one, same]
  refine ⟨by omega, prefixes, ?_⟩
  -- a statement further in takes one of the levels that operators are counted against
  rcases Nat.eq_zero_or_pos (onward.countP Node.isStatement) with none | further
  · omega
  · rw [Nat.add_comm 1, Nat.add_sub_add_right] at innermost
    have gained : prefixBudget (maxDepth - onward.countP Node.isStatement) +
        (maxDepth - 1 - (maxDepth - onward.countP Node.isStatement)) ≤
          prefixBudget (maxDepth - 1) := prefixBudget_add_le (by omega) (by omega)
    omega

/-- The longest runs that fit, one in each pair of parentheses, bring a path to all of that. -/
theorem Program.path_counts_attained :
    ∃ tokens program path, Program.ofTokens tokens = .ok program ∧ program.Path path ∧
      path.countP Node.isStatement + path.countP Node.isUnary =
        prefixBudget (maxDepth - 1) + 2 := by
  obtain ⟨program, path, read, leads, statements, prefixes, _⟩ :=
    tallestTower_read (Nat.zero_le maxOperators)
  refine ⟨_, program, path, read, leads, Nat.le_antisymm (path_counts read leads).2.2 ?_⟩
  rw [statements, prefixes, Nat.add_comm]

/-- Two runs of operators that fit by themselves, but not together with all that is around them. -/
theorem Program.path_counts_exceed :
    ∃ program path, Program.ofTokens (towerTokens [100, 100] 0) = .ok program ∧
      program.Path path ∧
      maxDepth < path.countP Node.isStatement + path.countP Node.isUnary := by
  have fits : towerFits maxDepth 2 [100, 100] = true := by decide
  obtain ⟨program, path, read, leads, statements, prefixes, _⟩ :=
    towerTokens_read fits (Nat.zero_le maxOperators)
  refine ⟨program, path, read, leads, ?_⟩
  rw [statements, prefixes]
  decide

/-- The complete expressions of a program that is read are complete expressions of the grammar. -/
theorem Program.complete_of_ofTokens (read : Program.ofTokens tokens = .ok program)
    {value : Expression} (completes : program.Completes value) :
    ∃ level word, 1 ≤ level ∧ Complete .kept level word value.unplaced := by
  obtain ⟨outer, member, holder, reaches, directly⟩ := completes
  obtain ⟨word, derived⟩ := states_of_ofTokens read outer member
  have bare : Node.unplaced (.expression value) ∈ (Node.statement holder).unplaced.children := by
    rw [Node.children_unplaced]
    exact List.mem_map_of_mem directly
  obtain ⟨level, part, outermost, complete⟩ := states_completes derived reaches.unplaced bare
  exact ⟨level, part, outermost, complete⟩

/-- What the limits leave for a path through a complete expression. -/
theorem Program.completes_counts (read : Program.ofTokens tokens = .ok program)
    {value : Expression} (completes : program.Completes value) {path : List Node}
    (leads : Node.Path (.expression value) path) :
    path.countP Node.isBinary ≤ maxOperators ∧
      path.countP Node.isUnary ≤ prefixBudget (maxDepth - 1) ∧
      path.length = path.countP Node.isBinary + path.countP Node.isUnary + 1 := by
  obtain ⟨level, word, outermost, complete⟩ := complete_of_ofTokens read completes
  obtain ⟨_, binary, length⟩ := leads.counts
  have operators := complete.fits
  rw [Expression.operatorCount_unplaced] at operators
  have prefixes := expresses_path complete.derived leads.unplaced
  rw [Node.countP_isUnary_unplaced] at prefixes
  simp only [Phrase.levelsLeft, Nat.add_sub_add_right] at prefixes
  exact ⟨binary.trans operators,
    prefixes.trans (prefixBudget_mono (Nat.sub_le_sub_left outermost maxDepth)), length⟩

end StagedAnalysis
