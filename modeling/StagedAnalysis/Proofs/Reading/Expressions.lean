import StagedAnalysis.Proofs.Grammar
import StagedAnalysis.Proofs.Reading.Steps
/-!
Reading expressions is reading by the grammar.

Both directions go along the reader: from an operand to the operators in front of it, to the six
levels of binary operators, and to expressions in parentheses, which are one level further in. The
first half says that what is read is derived; the second half says that what is derived is read, if
what comes next cannot belong to it.
-/
namespace StagedAnalysis

open Token (Kind)
open Grammar (Limits Phrase Expresses Atom operandOf)
open ParseState (Ready Reads)

def Precedence.rank : Precedence → Nat
  | disjunction => 0
  | conjunction => 1
  | equality => 2
  | relation => 3
  | sum => 4
  | product => 5

/-! ### Tokens of operators and operands -/

theorem Token.Kind.binaryOp?_eq_some_iff {kind : Kind} {op : BinaryOp} :
    kind.binaryOp? = some op ↔ kind = .symbol op.sign := by
  constructor
  · intro found
    cases kind with
    | symbol sign => cases sign <;> cases found <;> rfl
    | _ => cases found
  · rintro rfl
    cases op <;> rfl

theorem Token.Kind.unaryOp?_eq_some_iff {kind : Kind} {op : UnaryOp} :
    kind.unaryOp? = some op ↔ kind = .symbol op.sign := by
  constructor
  · intro found
    cases kind with
    | symbol sign => cases sign <;> cases found <;> rfl
    | _ => cases found
  · rintro rfl
    cases op <;> rfl

theorem Parse.operatorAt_eq_some_iff {precedence : Precedence} {token : Token} {op : BinaryOp} :
    operatorAt precedence token = some op ↔
      token.kind = .symbol op.sign ∧ op.precedence = precedence := by
  simp [operatorAt, Option.filter_eq_some_iff, Token.Kind.binaryOp?_eq_some_iff]

theorem Expression.atom_of_ofToken? {token : Token} {operand : Expression}
    (found : ofToken? token = some operand) : Atom token.kind operand.unplaced := by
  rcases token with ⟨kind, lexeme, span⟩
  unfold ofToken? at found
  split at found <;> cases found <;> rename_i same <;> cases same
  · exact .int _
  · exact .float _
  · exact .string _
  · exact .trueWord
  · exact .falseWord
  · exact .identifier _

theorem Expression.ofToken?_of_atom {token : Token} {tree : Expression}
    (single : Atom token.kind tree) :
    ∃ operand, ofToken? token = some operand ∧ operand.unplaced = tree := by
  rcases token with ⟨kind, lexeme, span⟩
  cases single <;> exact ⟨_, rfl, rfl⟩

theorem Expression.operatorCount_of_atom {kind : Kind} {tree : Expression}
    (single : Atom kind tree) : tree.operatorCount = 0 := by
  cases single <;> rfl

/-- How many levels further in a phrase is than the place where its reading begins. -/
def Grammar.Phrase.inward : Phrase → Nat
  | .expression => 1
  | _ => 0

theorem Grammar.operandOf_inward (precedence : Precedence) :
    (operandOf precedence).inward = 0 := by
  cases precedence <;> rfl

def Grammar.Phrase.rank : Phrase → Nat
  | .expression => 0
  | .joined precedence => precedence.rank
  | .prefixed | .operand => 6

/-- The phrase ends in front of the kind: it is no operator that could join the phrase to more. -/
def Grammar.Phrase.EndsBefore (phrase : Phrase) (kind : Kind) : Prop :=
  ∀ op, kind.binaryOp? = some op → op.precedence.rank < phrase.rank

theorem Grammar.Phrase.endsBefore_of_binaryOp? {phrase : Phrase} {kind : Kind}
    (none : kind.binaryOp? = none) : phrase.EndsBefore kind := by
  intro op found
  rw [none] at found
  cases found

theorem Grammar.Phrase.operand_endsBefore (kind : Kind) : Phrase.operand.EndsBefore kind := by
  intro op _
  cases op <;> decide

theorem Grammar.rank_lt_operandOf (precedence : Precedence) :
    precedence.rank < (operandOf precedence).rank := by
  cases precedence <;> decide

/-- An operand does not begin with an operator. -/
theorem Grammar.operand_head {limits : Limits} {level : Nat} {word : List Kind}
    {tree : Expression} (derived : Expresses limits .operand level word tree) :
    ∃ kind rest, word = kind :: rest ∧ kind.unaryOp? = none := by
  cases derived with
  | atom single => cases single <;> exact ⟨_, _, rfl, rfl⟩
  | parentheses derived => exact ⟨_, _, rfl, rfl⟩

namespace Parse

variable {state behind start : ParseState}

/-! ### What is read is derived -/

/-- The later state stands behind a phrase that stands for the expression, and has counted its
operators. -/
def Reached (phrase : Phrase) (state : ParseState) (expression : Expression)
    (later : ParseState) : Prop :=
  ∃ word,
    Expresses .kept phrase (state.depth + phrase.inward) word expression.unplaced ∧
      Reads word state later ∧
      later.operators = state.operators + expression.operatorCount

def ReadsPhrase (phrase : Phrase) (step : Parse Expression) : Prop :=
  ∀ {state expression behind}, state.Ready → step.Gives state expression behind →
    Reached phrase state expression behind

theorem gives_primary {inner : Parse Expression} {operand : Expression} :
    (primary inner).Gives state operand behind ↔
      Expression.ofToken? state.current = some operand ∧ state.advance = behind ∨
      Expression.ofToken? state.current = none ∧ state.current.kind = .symbol .leftParen ∧
        ∃ inside, inner.Gives state.advance operand inside ∧
          inside.current.kind = .symbol .rightParen ∧ inside.advance = behind := by
  rw [primary, gives_bind]
  simp only [gives_current, and_assoc, exists_and_left, exists_eq_left']
  cases found : Expression.ofToken? state.current with
  | some read => simp [and_comm]
  | none =>
      by_cases opened : state.current.kind = .symbol .leftParen
      · simp only [opened, if_true, gives_bind, gives_advance, gives_expect, gives_pure, and_assoc,
          exists_and_left, exists_eq_left', reduceCtorEq, false_and, true_and, false_or]
        constructor
        · rintro ⟨_, inside, given, closed, rfl, rfl⟩
          exact ⟨inside, given, closed, rfl⟩
        · rintro ⟨inside, given, closed, rfl⟩
          exact ⟨operand, inside, given, closed, rfl, rfl⟩
      · simp [opened]

theorem primary_reads {inner : Parse Expression} (innerReads : ReadsPhrase .expression inner) :
    ReadsPhrase .operand (primary inner) := by
  intro state operand behind ready given
  rcases gives_primary.mp given with ⟨found, rfl⟩ | ⟨_, opened, inside, innerGiven, closed, rfl⟩
  · have single := Expression.atom_of_ofToken? found
    have goesOn : state.current.kind ≠ .endOfInput := by
      intro ended
      rw [ended] at single
      cases single
    refine ⟨_, .atom single, ready.reads_advance rfl goesOn, ?_⟩
    rw [state.advance_operators, ← Expression.operatorCount_unplaced,
      Expression.operatorCount_of_atom single, Nat.add_zero]
  · have openReads := ready.reads_advance opened (by simp)
    obtain ⟨word, derived, reads, counted⟩ := innerReads (ready.behind openReads) innerGiven
    have insideReady := (ready.behind openReads).behind reads
    have closeReads := insideReady.reads_advance closed (by simp)
    rw [state.advance_depth] at derived
    refine ⟨_, .parentheses derived, openReads.cons (reads.trans closeReads), ?_⟩
    rw [inside.advance_operators, counted, state.advance_operators]

theorem gives_operatorRun_of_none {levels : Nat} {run : List (UnaryOp × Span)}
    (found : state.current.kind.unaryOp? = none) :
    (operatorRun levels).Gives state run behind ↔ [] = run ∧ state = behind := by
  cases levels <;>
    simp only [operatorRun, gives_bind, gives_current, and_assoc, exists_and_left,
      exists_eq_left', found, gives_pure]

theorem gives_operatorRun_of_some {levels : Nat} {run : List (UnaryOp × Span)} {op : UnaryOp}
    (found : state.current.kind.unaryOp? = some op) :
    (operatorRun (levels + 1)).Gives state run behind ↔
      state.depth < maxDepth ∧ ∃ inner,
        (operatorRun levels).Gives state.entered.advance inner behind ∧
          (op, state.current.span) :: inner = run := by
  simp only [operatorRun, gives_bind, gives_current, and_assoc, exists_and_left,
    exists_eq_left', found, gives_enter, gives_advance, gives_pure, exists_const]
  constructor
  · rintro ⟨fits, inner, last, given, same, rfl⟩
    exact ⟨fits, inner, given, same⟩
  · rintro ⟨fits, inner, given, same⟩
    exact ⟨fits, inner, behind, given, same, rfl⟩

theorem not_gives_operatorRun_zero {run : List (UnaryOp × Span)} {op : UnaryOp}
    (found : state.current.kind.unaryOp? = some op) :
    ¬(operatorRun 0).Gives state run behind := by
  simp only [operatorRun, gives_bind, gives_current, and_assoc, exists_and_left,
    exists_eq_left', found, gives_tooDeep, not_false_eq_true]

/-- A run of operators in front of an operand is as many levels as it has operators, and all of
them are still counted at its end. -/
theorem operatorRun_reads {levels : Nat} {run : List (UnaryOp × Span)} (ready : state.Ready)
    (given : (operatorRun levels).Gives state run behind) :
    Reads (run.map fun entry => .symbol entry.1.sign) state (behind.leave run.length) ∧
      behind.depth = state.depth + run.length ∧ behind.depth ≤ maxDepth ∧
      behind.operators = state.operators := by
  induction levels generalizing state run with
  | zero =>
      cases found : state.current.kind.unaryOp? with
      | some op => exact absurd given (not_gives_operatorRun_zero found)
      | none =>
          obtain ⟨rfl, rfl⟩ := (gives_operatorRun_of_none found).mp given
          exact ⟨ready.reads_nil, rfl, ready.depth, rfl⟩
  | succ levels inductionHypothesis =>
      cases found : state.current.kind.unaryOp? with
      | none =>
          obtain ⟨rfl, rfl⟩ := (gives_operatorRun_of_none found).mp given
          exact ⟨ready.reads_nil, rfl, ready.depth, rfl⟩
      | some op =>
          obtain ⟨fits, inner, innerGiven, rfl⟩ := (gives_operatorRun_of_some found).mp given
          have inside := ready.entered fits
          have taken := inside.reads_advance (Token.Kind.unaryOp?_eq_some_iff.mp found) (by simp)
          obtain ⟨reads, depth, within, counted⟩ :=
            inductionHypothesis (inside.behind taken) innerGiven
          rw [taken.depth, ParseState.entered_depth] at depth
          rw [ParseState.advance_operators] at counted
          refine ⟨⟨?_, ?_, reads.closing.trans taken.closing, reads.operators⟩, ?_, within, counted⟩
          · exact taken.ahead.trans (congrArg (_ :: ·) reads.ahead)
          · rw [ParseState.leave_depth, List.length_cons]
            omega
          · rw [List.length_cons]
            omega

theorem gives_unary {operand : Parse Expression} {expression : Expression} :
    (unary operand).Gives state expression behind ↔
      ∃ run between innermost,
        (operatorRun maxDepth).Gives state run between ∧
          operand.Gives (between.leave run.length) innermost behind ∧
          run.foldr (fun entry inner => inner.apply entry.1 entry.2) innermost = expression := by
  simp only [unary, gives_bind, gives_leave, gives_pure]
  constructor
  · rintro ⟨run, between, runGiven, _, _, rfl, innermost, _, innerGiven, same, rfl⟩
    exact ⟨run, between, innermost, runGiven, innerGiven, same⟩
  · rintro ⟨run, between, innermost, runGiven, innerGiven, same⟩
    exact ⟨run, between, runGiven, (), _, rfl, innermost, behind, innerGiven, same, rfl⟩

theorem unplaced_foldr_apply (run : List (UnaryOp × Span)) (innermost : Expression) :
    (run.foldr (fun entry inner => inner.apply entry.1 entry.2) innermost).unplaced =
      (run.map Prod.fst).foldr (fun op inner => .unary op inner .origin) innermost.unplaced := by
  induction run with
  | nil => rfl
  | cons entry run same =>
      exact congrArg (fun inner => Expression.unary entry.1 inner .origin) same

theorem operatorCount_foldr_apply (run : List (UnaryOp × Span)) (innermost : Expression) :
    (run.foldr (fun entry inner => inner.apply entry.1 entry.2) innermost).operatorCount =
      innermost.operatorCount := by
  induction run with
  | nil => rfl
  | cons entry run same => exact same

theorem unary_reads {operand : Parse Expression} (operandReads : ReadsPhrase .operand operand) :
    ReadsPhrase .prefixed (unary operand) := by
  intro state expression behind ready given
  obtain ⟨run, between, innermost, runGiven, innerGiven, rfl⟩ := gives_unary.mp given
  obtain ⟨runReads, depth, within, runCounted⟩ := operatorRun_reads ready runGiven
  obtain ⟨word, derived, reads, counted⟩ := operandReads (ready.behind runReads) innerGiven
  rw [runReads.depth] at derived
  have fits : state.depth + (run.map Prod.fst).length ≤ maxDepth := by
    rw [List.length_map]
    omega
  have whole := Expresses.prefixed (run.map Prod.fst) fits derived
  rw [List.map_map, ← unplaced_foldr_apply] at whole
  refine ⟨_, whole, runReads.trans reads, ?_⟩
  rw [counted, operatorCount_foldr_apply]
  exact congrArg (· + innermost.operatorCount) runCounted

theorem gives_chain_of_none {operand : Parse Expression} {precedence : Precedence} {budget : Nat}
    {left expression : Expression} (found : operatorAt precedence state.current = none) :
    (chain operand precedence budget left).Gives state expression behind ↔
      left = expression ∧ state = behind := by
  cases budget <;>
    simp only [chain, gives_bind, gives_current, and_assoc, exists_and_left, exists_eq_left',
      found, gives_pure]

theorem gives_chain_of_some {operand : Parse Expression} {precedence : Precedence} {budget : Nat}
    {left expression : Expression} {op : BinaryOp}
    (found : operatorAt precedence state.current = some op) :
    (chain operand precedence (budget + 1) left).Gives state expression behind ↔
      state.operators < maxOperators ∧ ∃ right between,
        operand.Gives state.counted.advance right between ∧
          (chain operand precedence budget (.join op left right)).Gives between expression
            behind := by
  simp only [chain, gives_bind, gives_current, and_assoc, exists_and_left, exists_eq_left',
    found, gives_countOperator, gives_advance, exists_const]

theorem not_gives_chain_zero {operand : Parse Expression} {precedence : Precedence}
    {left expression : Expression} {op : BinaryOp}
    (found : operatorAt precedence state.current = some op) :
    ¬(chain operand precedence 0 left).Gives state expression behind := by
  simp only [chain, gives_bind, gives_current, and_assoc, exists_and_left, exists_eq_left',
    found, gives_tooLong, not_false_eq_true]

/-- One more operator with its right operand extends what is joined so far. -/
theorem Reached.join {precedence : Precedence} {left right : Expression} {op : BinaryOp}
    (reached : Reached (.joined precedence) start left state)
    (ready : state.Ready) (binds : op.precedence = precedence)
    (seen : state.current.kind = .symbol op.sign) (fits : state.operators < maxOperators)
    (rightReached : Reached (operandOf precedence) state.counted.advance right behind) :
    Reached (.joined precedence) start (.join op left right) behind := by
  obtain ⟨word, derived, reads, leftCount⟩ := reached
  obtain ⟨rightWord, rightDerived, rightReads, rightCount⟩ := rightReached
  have signReads := ready.reads_counted seen (by simp) fits
  rw [Grammar.operandOf_inward, signReads.depth, reads.depth] at rightDerived
  refine ⟨_, .join binds derived rightDerived, reads.trans (signReads.cons rightReads), ?_⟩
  rw [rightCount, ParseState.advance_operators, ParseState.counted_operators, leftCount]
  simp only [Expression.join, Expression.operatorCount]
  omega

theorem Reached.ready {phrase : Phrase} {expression : Expression}
    (reached : Reached phrase start expression state) (startReady : start.Ready) :
    state.Ready := by
  obtain ⟨word, _, reads, _⟩ := reached
  exact startReady.behind reads

theorem chain_reads {precedence : Precedence} {operand : Parse Expression}
    (operandReads : ReadsPhrase (operandOf precedence) operand) {budget : Nat}
    {left expression : Expression} (startReady : start.Ready)
    (reached : Reached (.joined precedence) start left state)
    (given : (chain operand precedence budget left).Gives state expression behind) :
    Reached (.joined precedence) start expression behind := by
  induction budget generalizing state left with
  | zero =>
      cases found : operatorAt precedence state.current with
      | some op => exact absurd given (not_gives_chain_zero found)
      | none =>
          obtain ⟨rfl, rfl⟩ := (gives_chain_of_none found).mp given
          exact reached
  | succ budget inductionHypothesis =>
      cases found : operatorAt precedence state.current with
      | none =>
          obtain ⟨rfl, rfl⟩ := (gives_chain_of_none found).mp given
          exact reached
      | some op =>
          obtain ⟨seen, binds⟩ := operatorAt_eq_some_iff.mp found
          obtain ⟨fits, right, between, rightGiven, rest⟩ := (gives_chain_of_some found).mp given
          have ready := reached.ready startReady
          have rightReady := ready.behind (ready.reads_counted seen (by simp) fits)
          have rightReached := operandReads rightReady rightGiven
          exact inductionHypothesis (reached.join ready binds seen fits rightReached) rest

theorem binary_reads (precedence : Precedence) {operand : Parse Expression}
    (operandReads : ReadsPhrase (operandOf precedence) operand) :
    ReadsPhrase (.joined precedence) (binary operand precedence) := by
  intro state expression behind ready given
  simp only [binary, gives_bind] at given
  obtain ⟨left, between, leftGiven, rest⟩ := given
  obtain ⟨word, derived, reads, counted⟩ := operandReads ready leftGiven
  rw [Grammar.operandOf_inward] at derived
  exact chain_reads operandReads ready ⟨word, .single derived, reads, counted⟩ rest

theorem expressionBody_reads {inner : Parse Expression}
    (innerReads : ReadsPhrase .expression inner) :
    ReadsPhrase (.joined .disjunction) (expressionBody inner) :=
  binary_reads .disjunction <| binary_reads .conjunction <| binary_reads .equality <|
    binary_reads .relation <| binary_reads .sum <| binary_reads .product <|
    unary_reads (primary_reads innerReads)

theorem nestedExpression_reads (levels : Nat) :
    ReadsPhrase .expression (nestedExpression levels) := by
  induction levels with
  | zero =>
      intro state expression behind ready given
      exact absurd given gives_tooDeep
  | succ levels inductionHypothesis =>
      intro state expression behind ready given
      obtain ⟨fits, inside, innerGiven, rfl⟩ := gives_nested.mp given
      obtain ⟨word, derived, reads, counted⟩ :=
        expressionBody_reads inductionHypothesis (ready.entered fits) innerGiven
      exact ⟨word, .expression fits derived, reads.outwards, counted⟩

theorem expression_reads {levels : Nat} {expression : Expression} (ready : state.Ready)
    (given : (Parse.expression levels).Gives state expression behind) :
    ∃ word, Grammar.Complete .kept state.depth word expression.unplaced ∧
      Reads word state behind := by
  simp only [Parse.expression, gives_bind, gives_resetOperators] at given
  obtain ⟨_, _, rfl, innerGiven⟩ := given
  obtain ⟨word, derived, reads, counted⟩ :=
    nestedExpression_reads levels ready.uncounted innerGiven
  have fits := reads.operators
  rw [counted, ParseState.uncounted_operators, Nat.zero_add,
    ← Expression.operatorCount_unplaced] at fits
  exact ⟨word, ⟨derived, fits⟩, reads.ahead, reads.depth, reads.closing, reads.operators⟩

/-! ### What is derived is read -/

/-- A step that, on a level, reads every phrase of one kind that no following operator extends. -/
def AcceptsPhrase (phrase : Phrase) (depth : Nat) (step : Parse Expression) : Prop :=
  ∀ {state word suffix tree}, state.Ready → state.depth = depth →
    Expresses .kept phrase (depth + phrase.inward) word tree →
    state.ahead = word ++ suffix → phrase.EndsBefore (suffix.headD .endOfInput) →
    state.operators + tree.operatorCount ≤ maxOperators →
    ∃ expression behind,
      step.Gives state expression behind ∧ expression.unplaced = tree ∧
        Reads word state behind ∧ behind.operators = state.operators + tree.operatorCount

theorem primary_accepts {inner : Parse Expression} {depth : Nat}
    (innerAccepts : AcceptsPhrase .expression depth inner) :
    AcceptsPhrase .operand depth (primary inner) := by
  intro state word suffix tree ready same derived shape ends fits
  cases derived with
  | @atom _ kind _ single =>
      have seen := ParseState.current_kind_of_ahead shape
      obtain ⟨operand, found, unplaced⟩ := Expression.ofToken?_of_atom (seen ▸ single)
      have goesOn : kind ≠ .endOfInput := by
        rintro rfl
        cases single
      refine ⟨operand, state.advance, gives_primary.mpr (.inl ⟨found, rfl⟩), unplaced,
        ready.reads_advance seen goesOn, ?_⟩
      rw [state.advance_operators, Expression.operatorCount_of_atom single, Nat.add_zero]
  | @parentheses _ word _ derived =>
      have seen := ParseState.current_kind_of_ahead shape
      have openReads := ready.reads_advance seen (by simp)
      have openShape : state.advance.ahead = word ++ .symbol .rightParen :: suffix :=
        openReads.ahead_eq (by simpa using shape)
      obtain ⟨operand, inside, given, unplaced, reads, counted⟩ :=
        innerAccepts (ready.behind openReads) (openReads.depth.trans same) derived openShape
          (Phrase.endsBefore_of_binaryOp? rfl) (by rwa [state.advance_operators])
      have closed := ParseState.current_kind_of_ahead (reads.ahead_eq openShape)
      have closeReads :=
        ((ready.behind openReads).behind reads).reads_advance closed (by simp)
      have none : Expression.ofToken? state.current = none := by
        simp [Expression.ofToken?, seen]
      refine ⟨operand, inside.advance,
        gives_primary.mpr (.inr ⟨none, seen, inside, given, closed, rfl⟩), unplaced,
        openReads.cons (reads.trans closeReads), ?_⟩
      rw [inside.advance_operators, counted, state.advance_operators]

theorem operatorRun_accepts (levels : Nat) {ops : List UnaryOp} {suffix : List Kind}
    (ready : state.Ready) (enough : maxDepth ≤ levels + state.depth)
    (fits : state.depth + ops.length ≤ maxDepth)
    (shape : state.ahead = ops.map (fun op => .symbol op.sign) ++ suffix)
    (ends : (suffix.headD .endOfInput).unaryOp? = none) :
    ∃ run behind, (operatorRun levels).Gives state run behind ∧ run.map Prod.fst = ops := by
  induction ops generalizing state levels with
  | nil =>
      have found : state.current.kind.unaryOp? = none := by
        rw [ParseState.current_kind ready.closing, shape]
        exact ends
      exact ⟨[], state, (gives_operatorRun_of_none found).mpr ⟨rfl, rfl⟩, rfl⟩
  | cons op ops inductionHypothesis =>
      rw [List.length_cons] at fits
      obtain ⟨levels, rfl⟩ : ∃ fewer, levels = fewer + 1 := ⟨levels - 1, by omega⟩
      have seen := ParseState.current_kind_of_ahead shape
      have found := Token.Kind.unaryOp?_eq_some_iff.mpr seen
      have inside := ready.entered (by omega)
      have taken := inside.reads_advance seen (by simp)
      have depth := taken.depth.trans state.entered_depth
      obtain ⟨run, behind, given, same⟩ :=
        inductionHypothesis levels (inside.behind taken) (by omega) (by omega) (taken.ahead_eq shape)
      refine ⟨(op, state.current.span) :: run, behind,
        (gives_operatorRun_of_some found).mpr ⟨by omega, run, given, rfl⟩, ?_⟩
      rw [List.map_cons, same]

theorem unary_accepts {operand : Parse Expression} {depth : Nat}
    (operandAccepts : AcceptsPhrase .operand depth operand) :
    AcceptsPhrase .prefixed depth (unary operand) := by
  intro state word suffix tree ready same derived shape ends fits
  cases derived with
  | @prefixed _ word tree ops levelFits derived =>
      rw [List.append_assoc] at shape
      obtain ⟨kind, rest, rfl, notUnary⟩ := Grammar.operand_head derived
      obtain ⟨run, between, runGiven, runOps⟩ :=
        operatorRun_accepts maxDepth ready (Nat.le_add_right _ _)
          (by rw [same]; exact levelFits) shape notUnary
      obtain ⟨runReads, depthEq, within, runCounted⟩ := operatorRun_reads ready runGiven
      have runShape : (run.map fun entry => Kind.symbol entry.1.sign) =
          ops.map fun op => .symbol op.sign := by
        rw [← runOps, List.map_map]
        rfl
      rw [runShape] at runReads
      have treeCount : Expression.operatorCount
          (ops.foldr (fun op inner => .unary op inner .origin) tree) = tree.operatorCount := by
        clear runOps runShape shape runReads levelFits fits
        induction ops with
        | nil => rfl
        | cons op ops counted => exact counted
      rw [treeCount] at fits ⊢
      obtain ⟨innermost, behind, given, unplaced, reads, counted⟩ :=
        operandAccepts (ready.behind runReads) (runReads.depth.trans same) derived
          (runReads.ahead_eq shape) (Phrase.operand_endsBefore _)
          (by rwa [ParseState.leave_operators, runCounted])
      refine ⟨_, behind, gives_unary.mpr ⟨run, between, innermost, runGiven, given, rfl⟩, ?_,
        runReads.trans reads, ?_⟩
      · rw [unplaced_foldr_apply, runOps, unplaced]
      · rw [counted, ParseState.leave_operators, runCounted]

/-- A derived chain is read up to its end as what stands to the left of what may come next. The
budget that is left is still as good as none. -/
theorem binary_prefix {precedence : Precedence} {operand : Parse Expression} {depth level : Nat}
    {phrase : Phrase} {word suffix : List Kind} {tree : Expression}
    (operandAccepts : AcceptsPhrase (operandOf precedence) depth operand)
    (derived : Expresses .kept phrase level word tree) (joined : phrase = .joined precedence)
    (sameLevel : level = depth) (ready : state.Ready) (same : state.depth = depth)
    (shape : state.ahead = word ++ suffix)
    (ends : (operandOf precedence).EndsBefore (suffix.headD .endOfInput))
    (fits : state.operators + tree.operatorCount ≤ maxOperators) :
    ∃ left between budget,
      left.unplaced = tree ∧ Reads word state between ∧
        between.operators = state.operators + tree.operatorCount ∧
        maxOperators ≤ budget + between.operators ∧
        ∀ expression behind,
          (chain operand precedence budget left).Gives between expression behind →
            (binary operand precedence).Gives state expression behind := by
  -- a word groups to the left and is read from the left: the left operand is met first, and what
  -- the loop still has to do is left open for the operators that follow
  induction derived generalizing suffix with
  | expression _ _ _ => cases joined
  | prefixed _ _ _ _ => cases joined
  | atom _ => cases joined
  | parentheses _ _ => cases joined
  | single derived _ =>
      cases joined
      rw [sameLevel, ← Nat.add_zero depth, ← Grammar.operandOf_inward precedence] at derived
      obtain ⟨left, between, given, unplaced, reads, counted⟩ :=
        operandAccepts ready same derived shape ends fits
      refine ⟨left, between, maxOperators, unplaced, reads, counted, Nat.le_add_right _ _, ?_⟩
      intro expression behind rest
      exact gives_bind.mpr ⟨left, between, given, rest⟩
  | @join _ _ first second _ _ op binds _ rightDerived leftHypothesis _ =>
      cases joined
      rw [List.append_assoc] at shape
      simp only [Expression.operatorCount] at fits
      have endsLeft : (operandOf precedence).EndsBefore (.symbol op.sign) := by
        intro other found
        rw [Token.Kind.binaryOp?_eq_some_iff.mpr rfl] at found
        cases found
        rw [binds]
        exact Grammar.rank_lt_operandOf precedence
      obtain ⟨left, between, budget, leftSame, leftReads, leftCount, enough, resume⟩ :=
        leftHypothesis rfl sameLevel shape endsLeft (by omega)
      have betweenReady := ready.behind leftReads
      have seen := ParseState.current_kind_of_ahead (leftReads.ahead_eq shape)
      have signReads := betweenReady.reads_counted seen (by simp) (by omega)
      have counted : between.counted.advance.operators = between.operators + 1 :=
        ParseState.advance_operators _
      rw [sameLevel, ← Nat.add_zero depth, ← Grammar.operandOf_inward precedence] at rightDerived
      obtain ⟨right, behind, rightGiven, rightSame, rightReads, rightCount⟩ :=
        operandAccepts (betweenReady.behind signReads)
          (signReads.depth.trans (leftReads.depth.trans same)) rightDerived
          (signReads.ahead_eq (leftReads.ahead_eq shape)) ends (by omega)
      obtain ⟨budget, rfl⟩ : ∃ fewer, budget = fewer + 1 := ⟨budget - 1, by omega⟩
      refine ⟨.join op left right, behind, budget, ?_, leftReads.trans (signReads.cons rightReads),
        ?_, by omega, ?_⟩
      · rw [Expression.join, Expression.unplaced, leftSame, rightSame]
      · simp only [Expression.operatorCount]
        omega
      · intro expression last rest
        have found := operatorAt_eq_some_iff.mpr ⟨seen, binds⟩
        exact resume expression last ((gives_chain_of_some found).mpr
          ⟨by omega, right, behind, rightGiven, rest⟩)

theorem binary_accepts (precedence : Precedence) {operand : Parse Expression} {depth : Nat}
    (operandAccepts : AcceptsPhrase (operandOf precedence) depth operand) :
    AcceptsPhrase (.joined precedence) depth (binary operand precedence) := by
  intro state word suffix tree ready same derived shape ends fits
  have endsOperand : (operandOf precedence).EndsBefore (suffix.headD .endOfInput) :=
    fun op found => Nat.lt_trans (ends op found) (Grammar.rank_lt_operandOf precedence)
  obtain ⟨left, between, budget, unplaced, reads, counted, _, resume⟩ :=
    binary_prefix operandAccepts derived rfl rfl ready same shape endsOperand fits
  have stops : operatorAt precedence between.current = none := by
    cases found : operatorAt precedence between.current with
    | none => rfl
    | some op =>
        obtain ⟨seen, binds⟩ := operatorAt_eq_some_iff.mp found
        rw [ParseState.current_kind (ready.behind reads).closing, reads.ahead_eq shape] at seen
        have looser := ends op (Token.Kind.binaryOp?_eq_some_iff.mpr seen)
        rw [binds] at looser
        exact absurd looser (Nat.lt_irrefl _)
  exact ⟨left, between, resume left between ((gives_chain_of_none stops).mpr ⟨rfl, rfl⟩),
    unplaced, reads, counted⟩

theorem expressionBody_accepts {inner : Parse Expression} {depth : Nat}
    (innerAccepts : AcceptsPhrase .expression depth inner) :
    AcceptsPhrase (.joined .disjunction) depth (expressionBody inner) :=
  binary_accepts .disjunction <| binary_accepts .conjunction <| binary_accepts .equality <|
    binary_accepts .relation <| binary_accepts .sum <| binary_accepts .product <|
    unary_accepts (primary_accepts innerAccepts)

theorem nestedExpression_accepts (levels : Nat) {depth : Nat}
    (enough : maxDepth ≤ levels + depth) :
    AcceptsPhrase .expression depth (nestedExpression levels) := by
  -- on the levels that are left to go down: what the depth gains, they lose
  induction levels generalizing depth with
  | zero =>
      intro state word suffix tree ready same derived shape ends fits
      cases derived with
      | expression levelFits _ =>
          simp only [Grammar.Limits.kept, Phrase.inward] at levelFits
          omega
  | succ levels inductionHypothesis =>
      intro state word suffix tree ready same derived shape ends fits
      cases derived with
      | expression levelFits derived =>
          simp only [Grammar.Limits.kept, Phrase.inward] at levelFits
          obtain ⟨expression, inside, given, unplaced, reads, counted⟩ :=
            expressionBody_accepts (inductionHypothesis (by omega)) (ready.entered (by omega))
              (congrArg (· + 1) same) derived shape ends fits
          exact ⟨expression, inside.leave 1, gives_nested.mpr ⟨by omega, inside, given, rfl⟩,
            unplaced, reads.outwards, counted⟩

theorem expression_accepts {levels : Nat} {word suffix : List Kind} {tree : Expression}
    (ready : state.Ready) (enough : maxDepth ≤ levels + state.depth)
    (derived : Grammar.Complete .kept state.depth word tree)
    (shape : state.ahead = word ++ suffix)
    (ends : (suffix.headD .endOfInput).binaryOp? = none) :
    ∃ expression behind,
      (Parse.expression levels).Gives state expression behind ∧
        expression.unplaced = tree ∧ Reads word state behind := by
  have fits : state.uncounted.operators + tree.operatorCount ≤ maxOperators := by
    rw [ParseState.uncounted_operators, Nat.zero_add]
    exact derived.fits
  obtain ⟨expression, behind, given, unplaced, reads, _⟩ :=
    nestedExpression_accepts levels enough ready.uncounted rfl derived.derived shape
      (Phrase.endsBefore_of_binaryOp? ends) fits
  refine ⟨expression, behind, ?_, unplaced, reads.ahead, reads.depth, reads.closing,
    reads.operators⟩
  exact gives_bind.mpr ⟨(), state.uncounted, gives_resetOperators.mpr rfl, given⟩

end Parse

end StagedAnalysis
