import StagedAnalysis.Proofs.Reading.Patience
/-!
Reading goes on, and it ends.

A reader stands somewhere in a list of tokens, not behind its end: the first token that says that the
input ends, or the end of the list. What it reads as a statement, a nested expression or an operand takes
it further on, and still not behind the end. So each of its loops runs at most as often as tokens are left
in front of the end, and the reader of whole programs comes to its end on every list.
-/
namespace StagedAnalysis

namespace ParseState

variable {tokens taken : List Token} {cursor : Nat} {state later : ParseState}

structure StandsAt (tokens : List Token) (cursor : Nat) (state : ParseState) : Prop where
  rest : state.rest = tokens.drop cursor
  inFront : cursor ≤ (tokens.takeWhile (!·.isEnd)).length
  closed : state.closing.isEnd = true

theorem standsAt_ofTokens (tokens : List Token) : (ofTokens tokens).StandsAt tokens 0 :=
  ⟨rfl, Nat.zero_le _, rfl⟩

/-- Between a place and the end of the input are the tokens that are ahead. -/
theorem StandsAt.ahead_length (stands : state.StandsAt tokens cursor) :
    cursor + state.ahead.length = (tokens.takeWhile (!·.isEnd)).length := by
  have front : tokens.take cursor <+: tokens.takeWhile (!·.isEnd) := by
    refine List.prefix_of_prefix_length_le (List.take_prefix _ _) (List.takeWhile_prefix _) ?_
    exact Nat.le_trans (List.length_take_le _ _) stands.inFront
  have goesOn (token : Token) (member : token ∈ tokens.take cursor) : (!token.isEnd) = true :=
    List.all_eq_true.mp List.all_takeWhile token (front.subset member)
  have longEnough : cursor ≤ tokens.length :=
    Nat.le_trans stands.inFront (List.takeWhile_prefix _).length_le
  have parted : tokens.takeWhile (!·.isEnd) =
      tokens.take cursor ++ (tokens.drop cursor).takeWhile (!·.isEnd) := by
    rw [← List.takeWhile_append_of_pos goesOn, List.take_append_drop]
  rw [parted, List.length_append, List.length_take_of_le longEnough, ahead, List.length_map,
    stands.rest]

/-- Moving over tokens moves the place by as many, and never behind the end. -/
theorem StandsAt.moves (stands : state.StandsAt tokens cursor) (moves : Moves taken state later) :
    later.StandsAt tokens (cursor + taken.length) where
  rest := by
    rw [← List.drop_drop, ← stands.rest, moves.rest, List.drop_left]
  inFront := by
    have nearer := congrArg List.length moves.ahead
    rw [List.length_append, List.length_map] at nearer
    have whole := stands.ahead_length
    omega
  closed := moves.closing ▸ stands.closed

end ParseState

namespace Parse

open ParseState (StandsAt)

variable {α β : Type}

/-- From wherever it stands in the list, the step takes the reader further on if it succeeds, and not
behind the end of the input. -/
def Advances (tokens : List Token) (step : Parse α) : Prop :=
  ∀ {state later : ParseState} {cursor : Nat} {value : α}, state.StandsAt tokens cursor →
    step.Gives state value later → ∃ further, cursor < further ∧ later.StandsAt tokens further

theorem Progresses.advances {step : Parse α} (progresses : Progresses step) (tokens : List Token) :
    Advances tokens step := by
  intro state later cursor value stands given
  obtain ⟨first, taken, moves⟩ := progresses stands.closed given
  have behind := stands.moves moves
  rw [List.length_cons] at behind
  exact ⟨_, by omega, behind⟩

def RepeatsWithin (rounds : Nat) (state : ParseState) (goesOn : Token → Bool) (step : Parse α) : Prop :=
  CyclesWithin rounds state (collecting goesOn step) [] (many goesOn step)

theorem Progresses.repeatsWithin {step : Parse α} {goesOn : Token → Bool} {state : ParseState}
    {rounds : Nat} (progresses : Progresses step) (forward : GoesForward step)
    (stops : ∀ token : Token, token.isEnd = true → goesOn token = false)
    (closed : state.closing.isEnd = true) (enough : state.ahead.length ≤ rounds) :
    RepeatsWithin rounds state goesOn step :=
  forward.agree.cyclesWithin_many progresses stops (ParseState.covered_maxDepth closed) enough

/-- Statements, expressions and operands take tokens; the loops of the reader run at most once for each of
the tokens that are left in front of the end; and a reader of programs with no bounds but these comes to
what the reader itself comes to, on every list, with or without a token for its end. -/
theorem reading_ends (tokens : List Token) (levels : Nat) :
    (Advances tokens (statement levels) ∧ Advances tokens (nestedExpression levels) ∧
      Advances tokens (unary (primary (nestedExpression levels))) ∧
      Advances tokens (primary (nestedExpression levels))) ∧
    (∀ {state : ParseState} {cursor rounds : Nat}, state.StandsAt tokens cursor →
      (tokens.takeWhile (!·.isEnd)).length ≤ cursor + rounds →
      RepeatsWithin rounds state (!·.isEnd) outerStatement ∧
      RepeatsWithin rounds state (fun token => !(token.kind == .symbol .rightBrace || token.isEnd))
        (statement levels) ∧
      (∀ (tighter : List Precedence) (precedence : Precedence) (left : Expression),
        let operand := tighter.foldr (fun precedence tighter => binary tighter precedence)
          (unary (primary (nestedExpression levels)))
        CyclesWithin rounds state (joining operand precedence) left
          (chain operand precedence maxOperators left)) ∧
      CyclesWithin rounds state signing [] (operatorRun maxDepth)) ∧
    (∀ (patience : Patience) {state : ParseState} {cursor : Nat}, state.StandsAt tokens cursor →
      patience.program.run state = program.run state) ∧
    ∀ patience : Patience, Outcome.result (patience.program.run (.ofTokens tokens)) =
      Program.ofTokens tokens := by
  refine ⟨⟨?_, ?_, ?_, ?_⟩, ?_, ?_, ?_⟩
  · exact Progresses.advances (statement_progresses levels) tokens
  · exact Progresses.advances (nestedExpression_progresses levels) tokens
  · exact Progresses.advances (unary_progresses levels) tokens
  · exact Progresses.advances (primary_progresses levels) tokens
  · intro state cursor rounds stands left
    have whole := stands.ahead_length
    have enough : state.ahead.length ≤ rounds := by omega
    refine ⟨?_, ?_, ?_, ?_⟩
    · exact Progresses.repeatsWithin outerStatement_progresses
        (goesForward_compositional.outerStatement goesForward_counting.expression)
        (fun token ended => by rw [ended]; rfl) stands.closed enough
    · exact Progresses.repeatsWithin (statement_progresses levels)
        (goesForward_compositional.statement goesForward_counting.expression levels)
        (fun token ended => by simp [ended]) stands.closed enough
    · intro tighter precedence left operand
      have forward : GoesForward operand := goesForward_counting.binaries
        (goesForward_counting.operand (goesForward_counting.nestedExpression levels)) tighter
      have counting : KeepsCounted operand :=
        (keepsCounted_nestedExpression levels).operand.binaries tighter
      exact forward.agree.cyclesWithin_chain forward counting
        (ParseState.covered_maxDepth stands.closed) left enough
    · exact cyclesWithin_operatorRun stands.closed enough
  · intro patience state cursor stands
    exact patience.run_program stands.closed
  · intro patience
    rw [patience.run_program (ParseState.standsAt_ofTokens tokens).closed]
    exact (ParseState.ofTokens tokens).program_result.symm

/-- Inside of a block that is not closed, in front of the last statement of an input that has no token for
its end. -/
theorem reading_ends_block :
    let tokens : List Token :=
      [.symbol .leftBrace, .identifier "x", .symbol .assign, .symbol .minus, .int 1, .symbol .plus,
        .int 2, .symbol .semicolon].map (⟨·, "", .origin⟩)
    let inside : ParseState := ⟨tokens.drop 1, .origin, 1, 0, .closing .origin⟩
    let impatient : Patience := ⟨fun _ => tooLong⟩
    inside.StandsAt tokens 1 ∧
      (∃ tree later, (statement 3).Gives inside tree later ∧
        ∃ further, 1 < further ∧ later.StandsAt tokens further) ∧
      RepeatsWithin 7 inside (fun token => !(token.kind == .symbol .rightBrace || token.isEnd))
        (statement 3) ∧
      impatient.program.run inside = program.run inside ∧
      Outcome.result (impatient.program.run (.ofTokens tokens)) = Program.ofTokens tokens := by
  intro tokens inside impatient
  have stands : inside.StandsAt tokens 1 := ⟨rfl, by decide, rfl⟩
  obtain ⟨⟨advances, _⟩, loops, ends, whole⟩ := reading_ends tokens 3
  have given : ∃ tree later, (statement 3).Gives inside tree later := ⟨_, _, rfl⟩
  obtain ⟨tree, later, given⟩ := given
  obtain ⟨_, repeats, _⟩ := @loops inside 1 7 stands (by decide)
  exact ⟨stands, ⟨tree, later, given, advances stands given⟩, repeats, ends impatient stands,
    whole impatient⟩

end Parse

end StagedAnalysis
