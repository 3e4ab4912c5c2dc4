import StagedAnalysis.Proofs.Reading.Reuse
/-!
A reader whose levels are watched.

The reader enters a level in front of a statement, a complete expression, an expression in parentheses
and every operator of a run in front of an operand, and it leaves levels behind what it entered them
for. A watched reader does the same under the eyes of a watch, who is asked what to report when a level
is refused, and what to do before more levels are left than are counted. The reader itself is the one
whose watch makes no difference between refusals and lets every level be left.
-/
namespace StagedAnalysis

inductive Refusal where
  | statement
  | completeExpression
  | parentheses
  /-- One more operator in front of an operand, behind so many others of its run. -/
  | operator (counted : Nat)
  deriving DecidableEq

/-- How many levels stay counted because of a refusal. -/
def Refusal.levels : Refusal → Nat
  | operator counted => counted + 1
  | _ => 1

/-- What is reported of a refusal in front of a token, and what is done instead of leaving more levels
than are counted. -/
structure Watch where
  refused : Refusal → Span → AnalysisError
  overdrawn : Nat → Parse Unit

namespace Watch

open Parse

def idle : Watch :=
  ⟨fun _ => .nestingTooDeep maxDepth, Parse.leave⟩

section Reader

variable {α : Type} (watch : Watch)

def refuse (refusal : Refusal) : Parse α := fun state =>
  .error (watch.refused refusal state.current.span) { state with depth := state.depth + 1 }

def enter (refusal : Refusal) : Parse Unit := fun state =>
  if state.depth < maxDepth then .ok () { state with depth := state.depth + 1 }
  else watch.refuse refusal state

def leave (levels : Nat) : Parse Unit := fun state =>
  if levels ≤ state.depth then Parse.leave levels state else watch.overdrawn levels state

def nested (refusal : Refusal) (step : Parse α) : Parse α := fun state =>
  match watch.enter refusal state with
  | .error error refused => .error error refused
  | .ok _ inside =>
    match step inside with
    | .ok result done => (watch.leave 1 >>= fun _ => pure result) done
    | .error error stopped => (watch.leave 1 >>= fun _ => throw error) stopped

def operatorRun (counted : Nat) : Nat → Parse (List (UnaryOp × Span))
  | 0 => do
    match (← current).kind.unaryOp? with
    | none => return []
    | some _ => watch.refuse (.operator counted)
  | levels + 1 => do
    let token ← current
    match token.kind.unaryOp? with
    | none => return []
    | some op =>
      watch.enter (.operator counted)
      let _ ← advance
      let inner ← operatorRun (counted + 1) levels
      return (op, token.span) :: inner

def unary (operand : Parse Expression) : Parse Expression := do
  let operators ← watch.operatorRun 0 maxDepth
  watch.leave operators.length
  let innermost ← operand
  return operators.foldr (fun (op, place) expression => expression.apply op place) innermost

def expressionBody (inner : Parse Expression) : Parse Expression :=
  Precedence.all.foldr (fun precedence tighter => binary tighter precedence)
    (watch.unary (primary inner))

def nestedExpression : Refusal → Nat → Parse Expression
  | refusal, 0 => watch.refuse refusal
  | refusal, levels + 1 => fun state =>
    watch.nested refusal (watch.expressionBody (nestedExpression .parentheses levels)) state

def expression (levels : Nat) : Parse Expression := do
  resetOperators
  watch.nestedExpression .completeExpression levels

def statement : Nat → Parse Statement
  | 0 => watch.refuse .statement
  | levels + 1 => fun state =>
    watch.nested .statement (statementBody (statement levels) (watch.expression levels)) state

def outerStatement : Parse Statement := do
  let token ← current
  if token.kind.startsStatement then watch.statement maxDepth
  else throw (.trailingInput token.description token.span)

def program : Parse Program := do
  return ⟨← many (fun token => !token.isEnd) watch.outerStatement⟩

end Reader

/-! ### The reader itself -/

variable {α : Type}

theorem idle_leave (levels : Nat) : idle.leave levels = Parse.leave levels := by
  funext state
  exact ite_self _

theorem idle_nested (refusal : Refusal) (step : Parse α) :
    idle.nested refusal step = fun state => Parse.nested step state := by
  funext state
  unfold nested
  rw [idle_leave]
  rfl

theorem idle_operatorRun (counted levels : Nat) :
    idle.operatorRun counted levels = Parse.operatorRun levels := by
  induction levels generalizing counted with
  | zero => rfl
  | succ levels inductionHypothesis =>
      rw [operatorRun, Parse.operatorRun, inductionHypothesis]
      rfl

theorem idle_unary (operand : Parse Expression) : idle.unary operand = Parse.unary operand := by
  rw [unary, Parse.unary, idle_operatorRun]
  simp only [idle_leave]

theorem idle_nestedExpression (refusal : Refusal) (levels : Nat) :
    idle.nestedExpression refusal levels = Parse.nestedExpression levels := by
  induction levels generalizing refusal with
  | zero => rfl
  | succ levels inductionHypothesis =>
      rw [nestedExpression, Parse.nestedExpression, idle_nested, inductionHypothesis,
        expressionBody, idle_unary]
      rfl

theorem idle_statement (levels : Nat) : idle.statement levels = Parse.statement levels := by
  induction levels with
  | zero => rfl
  | succ levels inductionHypothesis =>
      rw [statement, Parse.statement, idle_nested, inductionHypothesis, expression,
        idle_nestedExpression]
      rfl

theorem idle_outerStatement : idle.outerStatement = Parse.outerStatement := by
  rw [outerStatement, idle_statement]
  rfl

/-- The reader is the one whose watch does nothing of its own. -/
theorem idle_program : idle.program = Parse.program := by
  rw [program, idle_outerStatement]
  rfl

end Watch

namespace ParseState

def watchedProgram (state : ParseState) (watch : Watch) : Except AnalysisError Program × ParseState :=
  let outcome : Parse.Outcome Program := watch.program.run state
  (outcome.result, outcome.state)

theorem watchedProgram_idle (state : ParseState) : state.watchedProgram .idle = state.program := by
  unfold watchedProgram
  rw [Watch.idle_program]
  exact (Prod.ext state.program_result state.program_state).symm

end ParseState

end StagedAnalysis
