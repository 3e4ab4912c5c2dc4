import StagedAnalysis.Proofs.Reading.Programs
import StagedAnalysis.Proofs.Prefixes.Statements
/-!
Steps that take at least one token.

Where the input has an end, an expression or a statement that is read has taken a token. A repetition of
such a step never runs out of its budget, if the budget is as long as what is left. So it does not matter
how long the budget is.
-/
namespace StagedAnalysis

open Token (Kind)
open Phrases

namespace Parse

open ParseState (Moves)

variable {α : Type} {step : Parse α} {goesOn : Token → Bool} {state : ParseState}

/-- Where the input has an end, the step has taken a token if it succeeds. -/
def Progresses (step : Parse α) : Prop :=
  ∀ {state value later}, state.closing.isEnd = true → step.Gives state value later →
    ∃ first taken, Moves (first :: taken) state later

/-- Looking at the next token leaves everything to what follows. -/
theorem gives_look {β : Type} {next : Token → Parse β} {value : β} {later : ParseState} :
    (current >>= next).Gives state value later ↔ (next state.current).Gives state value later :=
  Iff.rfl

theorem Foresees.progresses {phrases : Phrases} (foresees : Foresees phrases step)
    (notEmpty : ∀ behind, ¬phrases [] behind) : Progresses step := by
  intro state value later closed given
  obtain ⟨taken, moves, settles⟩ := (foresees state closed).reads given
  cases taken with
  | nil => exact absurd settles.phrase (notEmpty _)
  | cons first taken => exact ⟨first, taken, moves⟩

theorem primary_progresses (levels : Nat) : Progresses (primary (nestedExpression levels)) :=
  (primary_foresees (nestedExpression_foresees levels)).progresses
    (Grammar.expressions_nonempty .operand)

theorem unary_progresses (levels : Nat) :
    Progresses (unary (primary (nestedExpression levels))) :=
  (unary_foresees (primary_foresees (nestedExpression_foresees levels))).progresses
    (Grammar.expressions_nonempty .prefixed)

theorem nestedExpression_progresses (levels : Nat) : Progresses (nestedExpression levels) :=
  (nestedExpression_foresees levels).progresses (Grammar.expressions_nonempty .expression)

theorem statement_progresses (levels : Nat) : Progresses (statement levels) :=
  (statement_foresees levels).progresses Grammar.statements_nonempty

theorem outerStatement_progresses : Progresses outerStatement := by
  intro state result later closed given
  exact statement_progresses maxDepth closed (gives_outerStatement.mp given).2

/-! ### Repetition -/

theorem repeatWhile_of_stops (stops : goesOn state.current = false) (budget : List Token) :
    repeatWhile goesOn step budget state = .ok [] state := by
  cases budget with
  | nil => rfl
  | cons token budget =>
      change (if goesOn state.current then _ else pure [] : Parse (List α)) state = _
      rw [stops]
      rfl

/-- Where the repetition goes on, the step is followed by the repetition with one token less to
spare. -/
theorem repeatWhile_of_goesOn (goes : goesOn state.current = true) (token : Token)
    (budget : List Token) :
    repeatWhile goesOn step (token :: budget) state =
      (step >>= fun first => repeatWhile goesOn step budget >>= fun others =>
        pure (first :: others)) state := by
  change (if goesOn state.current then _ else pure [] : Parse (List α)) state = _
  rw [goes]
  rfl

/-- With a budget as long as what is left, the repetition goes on until it is told to stop. -/
theorem Progresses.repeatWhile_stops (progresses : Progresses step)
    (stops : ∀ token : Token, token.isEnd = true → goesOn token = false) {budget : List Token}
    {values : List α} {later : ParseState} (closed : state.closing.isEnd = true)
    (enough : state.rest.length ≤ budget.length)
    (given : (repeatWhile goesOn step budget).Gives state values later) :
    goesOn later.current = false := by
  induction budget generalizing state values with
  | nil =>
      obtain ⟨_, rfl⟩ := gives_pure.mp given
      rw [ParseState.current, List.eq_nil_of_length_eq_zero (Nat.le_zero.mp enough)]
      exact stops _ closed
  | cons token budget inductionHypothesis =>
      have unrolled := gives_repeatWhile_cons.mp given
      split at unrolled
      · obtain ⟨first, between, others, firstGiven, othersGiven, _⟩ := unrolled
        obtain ⟨head, taken, moves⟩ := progresses closed firstGiven
        have shorter := congrArg List.length moves.rest
        rw [List.length_append, List.length_cons] at shorter
        rw [List.length_cons] at enough
        exact inductionHypothesis (moves.closing ▸ closed) (by omega) othersGiven
      · rename_i stopped
        obtain ⟨_, rfl⟩ := unrolled
        exact Bool.not_eq_true _ ▸ stopped

/-- Two budgets that are both as long as what is left are equally good. -/
theorem Progresses.repeatWhile_eq (progresses : Progresses step)
    (stops : ∀ token : Token, token.isEnd = true → goesOn token = false) {budget other : List Token}
    (closed : state.closing.isEnd = true) (enough : state.rest.length ≤ budget.length)
    (otherEnough : state.rest.length ≤ other.length) :
    repeatWhile goesOn step budget state = repeatWhile goesOn step other state := by
  -- each round takes a token of both budgets and at least one of what is left
  induction budget generalizing state other with
  | nil =>
      have ended : state.rest = [] := List.eq_nil_of_length_eq_zero (Nat.le_zero.mp enough)
      have stopped : goesOn state.current = false := by
        rw [ParseState.current, ended]
        exact stops _ closed
      rw [repeatWhile_of_stops stopped, repeatWhile_of_stops stopped]
  | cons token budget inductionHypothesis =>
      cases goes : goesOn state.current with
      | false => rw [repeatWhile_of_stops goes, repeatWhile_of_stops goes]
      | true =>
          cases other with
          | nil =>
              have ended : state.rest = [] :=
                List.eq_nil_of_length_eq_zero (Nat.le_zero.mp otherEnough)
              rw [ParseState.current, ended] at goes
              exact absurd goes (by rw [List.headD_nil, stops _ closed]; exact Bool.false_ne_true)
          | cons otherToken other =>
              rw [repeatWhile_of_goesOn goes, repeatWhile_of_goesOn goes]
              change EStateM.bind step _ state = EStateM.bind step _ state
              unfold EStateM.bind
              cases given : step state with
              | error error stopped => rfl
              | ok first between =>
                  obtain ⟨head, taken, moves⟩ := progresses closed given
                  have shorter := congrArg List.length moves.rest
                  rw [List.length_append, List.length_cons] at shorter
                  rw [List.length_cons] at enough otherEnough
                  have same := @inductionHypothesis between other (moves.closing ▸ closed)
                    (by omega) (by omega)
                  change EStateM.bind (repeatWhile goesOn step budget) _ between =
                    EStateM.bind (repeatWhile goesOn step other) _ between
                  unfold EStateM.bind
                  rw [same]

/-- A step and a repetition behind it are a repetition. -/
theorem Progresses.many_cons (progresses : Progresses step)
    (stops : ∀ token : Token, token.isEnd = true → goesOn token = false) {first : α} {others : List α}
    {between later : ParseState} (closed : state.closing.isEnd = true)
    (goes : goesOn state.current = true) (firstGiven : step.Gives state first between)
    (othersGiven : (many goesOn step).Gives between others later) :
    (many goesOn step).Gives state (first :: others) later := by
  obtain ⟨head, taken, moves⟩ := progresses closed firstGiven
  have sameBudget : repeatWhile goesOn step (taken ++ between.rest) between =
      repeatWhile goesOn step between.rest between :=
    progresses.repeatWhile_eq stops (moves.closing ▸ closed) (by simp) (Nat.le_refl _)
  have othersAgain : (repeatWhile goesOn step (taken ++ between.rest)).Gives between others later :=
    sameBudget.trans (gives_many.mp othersGiven)
  rw [gives_many, moves.rest, List.cons_append, gives_repeatWhile_cons, if_pos goes]
  exact ⟨first, between, others, firstGiven, othersAgain, rfl⟩

end Parse

end StagedAnalysis
