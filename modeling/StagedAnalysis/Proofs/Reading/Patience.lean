import StagedAnalysis.Proofs.Reading.Rounds
/-!
A reader that may lose its patience.

The loops of the reader have bounds, and so has its way into statements and expressions. A patient reader
would go on as long as the next token asks for it; its loops and its recursion are not bounded by
anything. One that may lose its patience goes on in the same way, but it is done with a loop that goes
on after as many rounds as tokens were left when it began, and with a statement or an expression that is
further in than the depth allows. What it does then is its own matter. It never comes to that, so what it
reads is what the reader itself reads.
-/
namespace StagedAnalysis

structure Patience where
  lost : (α : Type) → Parse α

namespace Patience

open Parse

section Reader

variable {α : Type} (patience : Patience)

/-- A loop that is left when it goes on after as many rounds as tokens were left in front of it. -/
def loop (round? : α → Token → Option (Parse α)) (start : α) : Parse α := do
  Parse.loop (patience.lost α) round? (← get).ahead.length start

def many (goesOn : Token → Bool) (step : Parse α) : Parse (List α) :=
  patience.loop (collecting goesOn step) []

def operatorRun : Parse (List (UnaryOp × Span)) :=
  patience.loop signing []

def unary (operand : Parse Expression) : Parse Expression := do
  let operators ← patience.operatorRun
  leave operators.length
  let innermost ← operand
  return operators.foldr (fun (op, place) expression => expression.apply op place) innermost

def binary (operand : Parse Expression) (precedence : Precedence) : Parse Expression := do
  let left ← operand
  patience.loop (joining operand precedence) left

def expressionBody (inner : Parse Expression) : Parse Expression :=
  Precedence.all.foldr (fun precedence tighter => patience.binary tighter precedence)
    (patience.unary (primary inner))

/-- Reads an expression one level further in, and is done with it if more levels would be needed. -/
def nestedExpression : Nat → Parse Expression
  | 0 => fun state => nested (patience.lost Expression) state
  | levels + 1 => fun state => nested (patience.expressionBody (nestedExpression levels)) state

def expression (levels : Nat) : Parse Expression := do
  resetOperators
  patience.nestedExpression levels

def block (statement : Parse Statement) : Parse Statement := do
  let first ← expect .leftBrace
  let body ← patience.many (fun token => !(token.kind == .symbol .rightBrace || token.isEnd)) statement
  let _ ← expect .rightBrace
  return .block body (first.span.merge (← previous))

/-- Only a block has a loop of its own. -/
def statementBody (statement : Parse Statement) (expression : Parse Expression) :
    Parse Statement := do
  if (← current).kind = .symbol .leftBrace then patience.block statement
  else Parse.statementBody statement expression

def statement : Nat → Parse Statement
  | 0 => fun state => nested (patience.lost Statement) state
  | levels + 1 => fun state =>
    nested (patience.statementBody (statement levels) (patience.expression levels)) state

def outerStatement : Parse Statement := do
  let token ← current
  if token.kind.startsStatement then patience.statement maxDepth
  else throw (.trailingInput token.description token.span)

def program : Parse Program := do
  return ⟨← patience.many (fun token => !token.isEnd) patience.outerStatement⟩

end Reader

variable {α : Type} (patience : Patience) {levels : Nat}

/-! ### Expressions -/

theorem run_operatorRun {state : ParseState} (closed : state.closing.isEnd = true) :
    patience.operatorRun.run state = (Parse.operatorRun maxDepth).run state :=
  (cyclesWithin_operatorRun closed (Nat.le_refl _)).run_loop (patience.lost _)

/-- The levels of a run of operators are left before its operand is read. -/
theorem covered_behind_operatorRun {state between : ParseState} {run : List (UnaryOp × Span)}
    (covered : state.Covered levels)
    (given : (Parse.operatorRun maxDepth).Gives state run between) :
    (between.leave run.length).Covered levels := by
  have counted := operatorRun_countsLevels maxDepth state
  rw [show (Parse.operatorRun maxDepth).run state = .ok run between from given, CountsLevels] at counted
  obtain ⟨taken, moves, _⟩ := (operatorRun_foresees maxDepth state covered.closed).reads given
  have kept : (between.leave run.length).depth = state.depth := by
    rw [ParseState.leave_depth, counted, Nat.add_sub_cancel]
  exact covered.congr moves.closing (Nat.le_of_eq kept.symm)

theorem agree_unary {operand other : Parse Expression} (agree : Agree levels operand other) :
    Agree levels (patience.unary operand) (Parse.unary other) where
  same {state} covered := by
    refine run_bind_congr (patience.run_operatorRun covered.closed) fun {run between} given => ?_
    have behind := covered_behind_operatorRun covered given
    refine run_bind_congr rfl fun left => ?_
    obtain rfl := gives_leave.mp left
    exact run_bind_congr (agree.same behind) fun _ => rfl
  keeps {state later value} covered given := by
    obtain ⟨run, between, innermost, runGiven, operandGiven, _⟩ := gives_unary.mp given
    exact agree.keeps (covered_behind_operatorRun covered runGiven) operandGiven

section Binaries

variable {operand other : Parse Expression} (agree : Agree levels operand other)
  (forward : GoesForward other) (counting : KeepsCounted other)

include agree forward counting

theorem agree_binary (precedence : Precedence) :
    Agree levels (patience.binary operand precedence) (Parse.binary other precedence) := by
  refine agree.bind fun left => ⟨fun covered => ?_, fun covered given => ?_⟩
  · exact (agree.cyclesWithin_chain forward counting covered left (Nat.le_refl _)).run_loop
      (patience.lost _)
  · have chains : Agree levels (chain other precedence maxOperators left) _ :=
      @CompositionalFamily.chain Bool _ (agree_family levels) agree_countOperator agree_tooLong
        (fun _ => other) agree.self precedence maxOperators left
    exact chains.keeps covered given

theorem agree_binaries (precedences : List Precedence) :
    Agree levels
      (precedences.foldr (fun precedence tighter => patience.binary tighter precedence) operand)
      (precedences.foldr (fun precedence tighter => Parse.binary tighter precedence) other) := by
  induction precedences with
  | nil => exact agree
  | cons precedence precedences inductionHypothesis =>
      refine patience.agree_binary inductionHypothesis ?_ ?_ precedence
      · exact goesForward_counting.binaries forward precedences
      · exact counting.binaries precedences

end Binaries

theorem agree_nestedExpression (levels : Nat) :
    Agree levels (patience.nestedExpression levels) (Parse.nestedExpression levels) := by
  induction levels with
  | zero => exact agree_tooDeep _
  | succ levels inductionHypothesis =>
      have primaryAgrees : Agree levels (primary (patience.nestedExpression levels))
          (primary (Parse.nestedExpression levels)) :=
        @CompositionalFamily.primary Bool _ (agree_family levels)
          (fun member => cond member (patience.nestedExpression levels) (Parse.nestedExpression levels))
          inductionHypothesis
      exact (patience.agree_binaries (patience.agree_unary primaryAgrees)
        (goesForward_counting.operand (goesForward_counting.nestedExpression levels))
        (keepsCounted_nestedExpression levels).operand Precedence.all).nested

theorem agree_expression (levels : Nat) :
    Agree levels (patience.expression levels) (Parse.expression levels) :=
  agree_resetOperators.bind fun _ => patience.agree_nestedExpression levels

/-! ### Statements -/

theorem agree_many {step other : Parse α} {goesOn : Token → Bool} (agree : Agree levels step other)
    (progresses : Progresses other)
    (stops : ∀ token : Token, token.isEnd = true → goesOn token = false) :
    Agree levels (patience.many goesOn step) (Parse.many goesOn other) where
  same covered := (agree.cyclesWithin_many progresses stops covered (Nat.le_refl _)).run_loop
    (patience.lost _)
  keeps := (agree.many goesOn).keeps

section Statements

variable {statement other : Parse Statement} (agree : Agree levels statement other)
  (progresses : Progresses other)

include agree progresses

theorem agree_block : Agree levels (patience.block statement) (Parse.block other) := by
  refine ((agree_family levels).expect .leftBrace).bind fun first => ?_
  refine (patience.agree_many agree progresses fun token ended => by simp [ended]).bind fun body => ?_
  refine ((agree_family levels).expect .rightBrace).bind fun _ => ?_
  exact (agree_family levels).previous.bind fun _ => agree_pure _

theorem agree_statementBody {expression otherExpression : Parse Expression}
    (expressionAgrees : Agree levels expression otherExpression) :
    Agree levels (patience.statementBody statement expression)
      (Parse.statementBody other otherExpression) := by
  have blockAgrees := patience.agree_block agree progresses
  -- what is no block is read in the same way, by the statements and the expressions given
  have agrees : Agree levels (Parse.statementBody statement expression)
      (Parse.statementBody other otherExpression) :=
    @CompositionalFamily.statementBody_of_block Bool _ (agree_family levels)
      (fun member => cond member statement other)
      (fun member => cond member expression otherExpression) expressionAgrees agree
      (@CompositionalFamily.block_of_many Bool _ (agree_family levels)
        (fun member => cond member statement other) (agree.many _))
  refine ⟨fun {state} covered => ?_, agrees.keeps⟩
  by_cases braces : state.current.kind = .symbol .leftBrace
  · have own : (patience.statementBody statement expression).run state =
        (patience.block statement).run state := by
      rw [statementBody, run_look, if_pos braces]
    have plain : (Parse.statementBody other otherExpression).run state = (Parse.block other).run state := by
      rw [Parse.statementBody, run_look, braces]
    rw [own, plain, blockAgrees.same covered]
  · rw [statementBody, run_look, if_neg braces]
    exact agrees.same covered

end Statements

theorem agree_statement (levels : Nat) :
    Agree levels (patience.statement levels) (Parse.statement levels) := by
  induction levels with
  | zero => exact agree_tooDeep _
  | succ levels inductionHypothesis =>
      exact (patience.agree_statementBody inductionHypothesis (statement_progresses levels)
        (patience.agree_expression levels)).nested

theorem agree_outerStatement : Agree maxDepth patience.outerStatement Parse.outerStatement := by
  refine @CompositionalFamily.current Bool _ (agree_family maxDepth) _
    (fun member token =>
      if token.kind.startsStatement then
        cond member (patience.statement maxDepth) (Parse.statement maxDepth)
      else throw (.trailingInput token.description token.span)) fun token => ?_
  dsimp only
  split
  · exact .inl (patience.agree_statement maxDepth)
  · exact .inr ⟨_, .trailingInput, rfl, fun _ => rfl⟩

theorem agree_program : Agree maxDepth patience.program Parse.program := by
  refine (patience.agree_many patience.agree_outerStatement outerStatement_progresses ?_).bind
    fun statements => agree_pure _
  intro token ended
  rw [ended]
  rfl

/-- Where the input has an end, the reader of whole programs never loses patience. -/
theorem run_program {state : ParseState} (closed : state.closing.isEnd = true) :
    patience.program.run state = Parse.program.run state :=
  patience.agree_program.same (ParseState.covered_maxDepth closed)

end Patience

end StagedAnalysis
