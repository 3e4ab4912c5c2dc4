import StagedAnalysis.Proofs.Reading.Families
/-!
What holds of all reading because it holds of single steps.

A step is a family with one member, so a property of steps that the single steps have and that
following, choosing, nesting and repeating keep is a property of the reader as a whole. So a fact about
reading has to be looked into only where it can fail, and follows the reader through its rules for
nothing.
-/
namespace StagedAnalysis

namespace Parse

variable {α β : Type}

def Rejects (token : Token) (step : Parse α) : Prop :=
  ∃ error, Blames token error ∧ step = throw error

structure Compositional (holds : ∀ {α : Type}, Parse α → Prop) : Prop where
  pure {α : Type} (value : α) : holds (pure value)
  bind {α β : Type} {step : Parse α} {next : α → Parse β} (first : holds step)
    (rest : ∀ value, holds (next value)) : holds (step >>= next)
  current {α : Type} {next : Token → Parse α}
    (each : ∀ token, holds (next token) ∨ Rejects token (next token)) : holds (current >>= next)
  advance : holds advance
  previous : holds previous
  tooDeep {α : Type} : holds (tooDeep : Parse α)
  nested {α : Type} {step : Parse α} (inner : holds step) : holds fun state => nested step state
  many {α : Type} {step : Parse α} {goesOn : Token → Bool}
    (each : ∀ budget, holds (repeatWhile goesOn step budget)) (progresses : Progresses step)
    (stops : ∀ token : Token, token.isEnd = true → goesOn token = false) : holds (many goesOn step)

structure CompositionalCounting (holds : ∀ {α : Type}, Parse α → Prop) : Prop
    extends Compositional @holds where
  tooLong {α : Type} : holds (tooLong : Parse α)
  countOperator : holds countOperator
  resetOperators : holds resetOperators
  unary {operand : Parse Expression} (inner : holds operand) : holds (unary operand)

namespace Compositional

variable {holds : ∀ {α : Type}, Parse α → Prop} (compositional : Compositional @holds)

include compositional

/-- A property of steps is one of families with one member. -/
theorem family : @CompositionalFamily Unit fun steps => holds (steps ()) where
  pure value := compositional.pure value
  bind first rest := compositional.bind first rest
  current each := compositional.current fun token =>
    (each token).imp_right fun ⟨error, blames, _, rejects⟩ => ⟨error, blames, rejects ()⟩
  advance := compositional.advance
  previous := compositional.previous
  many each progresses stops := compositional.many each (progresses ()) stops

/-! ### Building blocks -/

theorem look {next : Token → Parse α} (each : ∀ token, holds (next token)) :
    holds (Parse.current >>= next) :=
  @CompositionalFamily.look Unit α _ compositional.family (fun _ => next) each

theorem expect (symbol : Symbol) : holds (expect symbol) :=
  compositional.family.expect symbol

theorem accept (kind : Token.Kind) : holds (accept kind) :=
  compositional.family.accept kind

/-- With a budget that is given, a repetition is a row of steps. -/
theorem repeatWhile {goesOn : Token → Bool} {step : Parse α} (each : holds step)
    (budget : List Token) : holds (repeatWhile goesOn step budget) :=
  @CompositionalFamily.repeatWhile Unit α _ compositional.family goesOn (fun _ => step) each budget

theorem unlessAt {step : Parse α} (stepHolds : holds step) (symbol : Symbol) :
    holds (unlessAt symbol step) :=
  @CompositionalFamily.unlessAt Unit α _ compositional.family (fun _ => step) stepHolds symbol

/-! ### Operands -/

/-- Operators in front of an operand are levels that are entered and left again. -/
theorem unary {operand : Parse Expression} (entering : holds enter)
    (leaving : ∀ levels, holds (leave levels)) (inner : holds operand) : holds (unary operand) := by
  have run (levels : Nat) : holds (operatorRun levels) := by
    induction levels with
    | zero =>
        apply compositional.look
        intro token
        split
        · exact compositional.pure []
        · exact compositional.tooDeep
    | succ levels inductionHypothesis =>
        apply compositional.look
        intro token
        split
        · exact compositional.pure []
        · exact compositional.bind entering fun _ => compositional.bind compositional.advance fun _ =>
            compositional.bind inductionHypothesis fun _ => compositional.pure _
  exact compositional.bind (run maxDepth) fun _ => compositional.bind (leaving _) fun _ =>
    compositional.bind inner fun _ => compositional.pure _

/-! ### Statements -/

theorem identifier : holds identifier :=
  compositional.family.identifier

section Bodies

variable {statement : Parse Statement} {expression : Parse Expression}
  (expressionHolds : holds expression)

include expressionHolds

theorem assignment : holds (assignment expression) :=
  @CompositionalFamily.assignment Unit _ compositional.family (fun _ => expression) expressionHolds

theorem parenthesized : holds (parenthesized expression) :=
  @CompositionalFamily.parenthesized Unit _ compositional.family (fun _ => expression) expressionHolds

theorem loopStart : holds (loopStart expression) :=
  @CompositionalFamily.loopStart Unit _ compositional.family (fun _ => expression) expressionHolds

end Bodies

section Programs

variable (expressionHolds : ∀ levels, holds (expression levels))

include expressionHolds

/-- What holds of complete expressions holds of statements. -/
theorem statement (levels : Nat) : holds (statement levels) := by
  induction levels with
  | zero => exact compositional.tooDeep
  | succ levels inductionHypothesis =>
      exact compositional.nested (@CompositionalFamily.statementBody Unit _ compositional.family
        (fun _ => Parse.statement levels) (fun _ => expression levels) (expressionHolds levels)
        inductionHypothesis fun _ => statement_progresses levels)

theorem outerStatement : holds outerStatement := by
  apply compositional.current
  intro token
  split
  · exact .inl (compositional.statement expressionHolds maxDepth)
  · exact .inr ⟨_, .trailingInput, rfl⟩

theorem program : holds program :=
  compositional.bind
    (compositional.many
      (compositional.repeatWhile (compositional.outerStatement expressionHolds))
      outerStatement_progresses fun token ended => by rw [ended]; rfl) fun _ =>
    compositional.pure _

end Programs

end Compositional

namespace CompositionalCounting

variable {holds : ∀ {α : Type}, Parse α → Prop} (counting : CompositionalCounting @holds)

include counting

/-! ### Expressions -/

theorem operand {inner : Parse Expression} (innerHolds : holds inner) :
    holds (Parse.unary (primary inner)) :=
  counting.unary
    (@CompositionalFamily.primary Unit _ counting.family (fun _ => inner) innerHolds)

/-- The binary operators of all precedences around an operand. -/
theorem binaries {operand : Parse Expression} (operandHolds : holds operand)
    (precedences : List Precedence) : holds
      (precedences.foldr (fun precedence tighter => Parse.binary tighter precedence) operand) :=
  @CompositionalFamily.binaries Unit _ counting.family counting.countOperator counting.tooLong
    (fun _ => operand) operandHolds precedences

theorem expressionBody {inner : Parse Expression} (innerHolds : holds inner) :
    holds (expressionBody inner) :=
  counting.binaries (counting.operand innerHolds) Precedence.all

theorem nestedExpression (levels : Nat) : holds (nestedExpression levels) := by
  induction levels with
  | zero => exact counting.tooDeep
  | succ levels inductionHypothesis =>
      exact counting.nested (counting.expressionBody inductionHypothesis)

theorem expression (levels : Nat) : holds (expression levels) :=
  counting.bind counting.resetOperators fun _ => counting.nestedExpression levels

end CompositionalCounting

end Parse

end StagedAnalysis
