import StagedAnalysis.Proofs.Reading.Progress
/-!
What readers that are built alike have in common.

The reader is built of few single steps, which follow one another, are chosen between and are repeated.
Where a statement is built of a step for the statements inside of it and one for its complete
expressions, a family of such steps gives a family of statements. A property of families that the single
steps have and that these ways of building keep is a property of all that is built from such families.
A family with one member is a step, so this also says what holds of the reader because it holds of
single steps.

Reading fails only in front of the token that is at fault, so a property of failures may rely on it.
-/
namespace StagedAnalysis

inductive Blames (token : Token) : AnalysisError → Prop
  | unexpectedToken (expected : String) :
      Blames token (.unexpectedToken expected token.description token.span)
  | expectedExpression : Blames token (.expectedExpression token.description token.span)
  | expectedIdentifier : Blames token (.expectedIdentifier token.description token.span)
  | trailingInput : Blames token (.trailingInput token.description token.span)
  | nestingTooDeep : Blames token (.nestingTooDeep maxDepth token.span)
  | expressionTooLong : Blames token (.expressionTooLong maxOperators token.span)

theorem Blames.stage? {token : Token} {error : AnalysisError} (blames : Blames token error) :
    error.stage? = some .syntactic := by
  cases blames <;> rfl

def AnalysisError.isTooDeep : AnalysisError → Bool
  | nestingTooDeep _ _ => true
  | _ => false

namespace Parse

variable {Member : Type} {α β : Type}

def RejectAll (token : Token) (steps : Member → Parse α) : Prop :=
  ∃ error, Blames token error ∧ error.isTooDeep = false ∧ ∀ member, steps member = throw error

/-- A property of families of steps that families of the same single step have, and that following one
another, looking at the next token and repeating keep. What follows a look at the next token may also be
to reject that token, and a repetition may rely on its steps taking tokens. -/
structure CompositionalFamily (holds : ∀ {α : Type}, (Member → Parse α) → Prop) : Prop where
  pure {α : Type} (value : α) : holds fun _ => pure value
  bind {α β : Type} {steps : Member → Parse α} {next : Member → α → Parse β} (first : holds steps)
    (rest : ∀ value, holds fun member => next member value) :
    holds fun member => steps member >>= next member
  current {α : Type} {next : Member → Token → Parse α}
    (each : ∀ token, (holds fun member => next member token) ∨
      RejectAll token fun member => next member token) :
    holds fun member => current >>= next member
  advance : holds fun _ => advance
  previous : holds fun _ => previous
  many {α : Type} {steps : Member → Parse α} {goesOn : Token → Bool}
    (each : ∀ budget, holds fun member => repeatWhile goesOn (steps member) budget)
    (progresses : ∀ member, Progresses (steps member))
    (stops : ∀ token : Token, token.isEnd = true → goesOn token = false) :
    holds fun member => many goesOn (steps member)

namespace CompositionalFamily

variable {holds : ∀ {α : Type}, (Member → Parse α) → Prop}
  (compositional : CompositionalFamily @holds)

include compositional

/-! ### Building blocks -/

omit compositional in
theorem holds_ite {condition : Prop} [Decidable condition] {first second : Member → Parse α}
    (firstHolds : holds first) (secondHolds : holds second) :
    holds fun member => if condition then first member else second member := by
  split
  · exact firstHolds
  · exact secondHolds

theorem look {next : Member → Token → Parse α}
    (each : ∀ token, holds fun member => next member token) :
    holds fun member => Parse.current >>= next member :=
  compositional.current fun token => .inl (each token)

theorem unexpected (expected : String) : holds fun _ => (unexpected expected : Parse α) :=
  compositional.current fun _ => .inr ⟨_, .unexpectedToken expected, rfl, fun _ => rfl⟩

theorem expectAs (symbol : Symbol) (expected : String) : holds fun _ => expectAs symbol expected :=
  compositional.look fun _ =>
    holds_ite compositional.advance (compositional.unexpected expected)

theorem expect (symbol : Symbol) : holds fun _ => expect symbol :=
  compositional.expectAs symbol _

theorem accept (kind : Token.Kind) : holds fun _ => accept kind :=
  compositional.look fun _ => holds_ite
    (compositional.bind compositional.advance fun _ => compositional.pure true)
    (compositional.pure false)

/-- With a budget that is given, a repetition is a row of steps. -/
theorem repeatWhile {goesOn : Token → Bool} {steps : Member → Parse α} (each : holds steps)
    (budget : List Token) : holds fun member => repeatWhile goesOn (steps member) budget := by
  induction budget with
  | nil => exact compositional.pure []
  | cons token budget inductionHypothesis =>
      apply compositional.look
      intro token
      apply holds_ite
      · exact compositional.bind each fun _ => compositional.bind inductionHypothesis fun _ =>
          compositional.pure _
      · exact compositional.pure []

theorem unlessAt {steps : Member → Parse α} (each : holds steps) (symbol : Symbol) :
    holds fun member => unlessAt symbol (steps member) :=
  compositional.look fun _ => holds_ite (compositional.pure none)
    (compositional.bind each fun _ => compositional.pure _)

/-! ### Operands and chains -/

theorem primary {inner : Member → Parse Expression} (innerHolds : holds inner) :
    holds fun member => primary (inner member) := by
  apply compositional.current
  intro token
  split
  · exact .inl (compositional.bind compositional.advance fun _ => compositional.pure _)
  · split
    · exact .inl (compositional.bind compositional.advance fun _ =>
        compositional.bind innerHolds fun _ => compositional.bind (compositional.expect _) fun _ =>
          compositional.pure _)
    · exact .inr ⟨_, .expectedExpression, rfl, fun _ => rfl⟩

section Chains

variable (counts : holds fun _ => countOperator) (full : holds fun _ => (tooLong : Parse Expression))
  {operand : Member → Parse Expression} (operandHolds : holds operand)

include counts full operandHolds

theorem chain (precedence : Precedence) (budget : Nat) (left : Expression) :
    holds fun member => chain (operand member) precedence budget left := by
  induction budget generalizing left with
  | zero =>
      apply compositional.look
      intro token
      split
      · exact compositional.pure left
      · exact full
  | succ budget inductionHypothesis =>
      apply compositional.look
      intro token
      split
      · exact compositional.pure left
      · exact compositional.bind counts fun _ => compositional.bind compositional.advance fun _ =>
          compositional.bind operandHolds fun _ => inductionHypothesis _

/-- The binary operators of all precedences around an operand. -/
theorem binaries (precedences : List Precedence) : holds fun member =>
    precedences.foldr (fun precedence tighter => Parse.binary tighter precedence)
      (operand member) := by
  induction precedences with
  | nil => exact operandHolds
  | cons precedence precedences inductionHypothesis =>
      exact compositional.bind inductionHypothesis fun left =>
        compositional.chain counts full inductionHypothesis precedence maxOperators left

end Chains

/-! ### Statements -/

theorem identifier : holds fun _ => identifier := by
  apply compositional.current
  intro token
  split
  · exact .inl (compositional.bind compositional.advance fun _ => compositional.pure _)
  · exact .inr ⟨_, .expectedIdentifier, rfl, fun _ => rfl⟩

section Bodies

variable {statement : Member → Parse Statement} {expression : Member → Parse Expression}
  (expressionHolds : holds expression)

include expressionHolds

theorem declaration (ty : Ty) : holds fun member => declaration ty (expression member) := by
  refine compositional.bind compositional.advance fun _ =>
    compositional.bind compositional.identifier fun _ =>
      compositional.bind (compositional.accept _) fun _ => holds_ite ?_ ?_
  · exact compositional.bind expressionHolds fun _ => compositional.bind (compositional.expect _) fun _ =>
      compositional.bind compositional.previous fun _ => compositional.pure _
  · exact compositional.bind (compositional.expectAs _ _) fun _ =>
      compositional.bind compositional.previous fun _ => compositional.pure _

theorem assignment : holds fun member => assignment (expression member) := by
  apply compositional.bind compositional.identifier
  intro target
  apply compositional.look
  intro token
  split
  · exact compositional.bind compositional.advance fun _ => compositional.bind expressionHolds fun _ =>
      compositional.pure _
  · exact compositional.unexpected _

theorem parenthesized : holds fun member => parenthesized (expression member) :=
  compositional.bind (compositional.expect _) fun _ => compositional.bind expressionHolds fun _ =>
    compositional.bind (compositional.expect _) fun _ => compositional.pure _

theorem print : holds fun member => print (expression member) :=
  compositional.bind compositional.advance fun _ =>
    compositional.bind (compositional.parenthesized expressionHolds) fun _ =>
      compositional.bind (compositional.expect _) fun _ =>
        compositional.bind compositional.previous fun _ => compositional.pure _

theorem loopStart : holds fun member => loopStart (expression member) := by
  apply compositional.look
  intro token
  dsimp only
  split
  · exact compositional.bind (compositional.declaration expressionHolds _) fun _ =>
      compositional.pure _
  · split
    · exact compositional.bind compositional.advance fun _ => compositional.pure _
    · exact compositional.bind (compositional.assignment expressionHolds) fun _ =>
        compositional.bind (compositional.expect _) fun _ => compositional.pure _
    · exact compositional.unexpected _

variable (statementHolds : holds statement)

include statementHolds

theorem conditional :
    holds fun member => conditional (statement member) (expression member) := by
  refine compositional.bind compositional.advance fun _ =>
    compositional.bind (compositional.parenthesized expressionHolds) fun _ =>
      compositional.bind statementHolds fun _ =>
        compositional.bind (compositional.accept _) fun _ => holds_ite ?_ ?_
  · exact compositional.bind statementHolds fun _ =>
      compositional.bind compositional.previous fun _ => compositional.pure _
  · exact compositional.bind compositional.previous fun _ => compositional.pure _

theorem whileLoop : holds fun member => whileLoop (statement member) (expression member) :=
  compositional.bind compositional.advance fun _ =>
    compositional.bind (compositional.parenthesized expressionHolds) fun _ =>
      compositional.bind statementHolds fun _ =>
        compositional.bind compositional.previous fun _ => compositional.pure _

theorem forLoop : holds fun member => forLoop (statement member) (expression member) :=
  compositional.bind compositional.advance fun _ =>
    compositional.bind (compositional.expect _) fun _ =>
      compositional.bind (compositional.loopStart expressionHolds) fun _ =>
        compositional.bind (compositional.unlessAt expressionHolds _) fun _ =>
          compositional.bind (compositional.expect _) fun _ =>
            compositional.bind
              (compositional.unlessAt (compositional.assignment expressionHolds) _) fun _ =>
              compositional.bind (compositional.expect _) fun _ =>
                compositional.bind statementHolds fun _ =>
                  compositional.bind compositional.previous fun _ => compositional.pure _

omit expressionHolds statementHolds in
/-- Braces around statements that are repeated. -/
theorem block_of_many (repeated : holds fun member =>
    Parse.many (fun token => !(token.kind == .symbol .rightBrace || token.isEnd))
      (statement member)) : holds fun member => block (statement member) :=
  compositional.bind (compositional.expect _) fun _ => compositional.bind repeated fun _ =>
    compositional.bind (compositional.expect _) fun _ =>
      compositional.bind compositional.previous fun _ => compositional.pure _

/-- What holds of blocks holds of all statements. -/
theorem statementBody_of_block (blockHolds : holds fun member => block (statement member)) :
    holds fun member => statementBody (statement member) (expression member) := by
  apply compositional.look
  intro token
  split
  · split
    · exact compositional.bind (compositional.declaration expressionHolds _) fun _ =>
        compositional.pure _
    · split
      · exact compositional.conditional expressionHolds statementHolds
      · exact compositional.whileLoop expressionHolds statementHolds
      · exact compositional.forLoop expressionHolds statementHolds
      · exact compositional.print expressionHolds
      · exact compositional.unexpected _
  · exact compositional.bind (compositional.assignment expressionHolds) fun _ =>
      compositional.bind (compositional.expect _) fun _ => compositional.pure _
  · exact blockHolds
  · exact compositional.bind compositional.advance fun _ => compositional.pure _
  · exact compositional.unexpected _

variable (progresses : ∀ member, Progresses (statement member))

include progresses

omit expressionHolds in
theorem block : holds fun member => block (statement member) :=
  compositional.block_of_many (compositional.many (compositional.repeatWhile statementHolds) progresses
    fun token ended => by simp [ended])

theorem statementBody :
    holds fun member => statementBody (statement member) (expression member) :=
  compositional.statementBody_of_block expressionHolds statementHolds
    (compositional.block statementHolds progresses)

end Bodies

end CompositionalFamily

end Parse

end StagedAnalysis
