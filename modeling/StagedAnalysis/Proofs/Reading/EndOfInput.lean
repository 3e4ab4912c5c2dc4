import StagedAnalysis.Proofs.Reading.Likeness
/-!
The end of the input is the first token that says so, or the end of the list.

What stands behind the first end is never seen, and a list without one is read as if its end stood
behind its last token. So two states are alike if the same tokens are left in front of the same end.
-/
namespace StagedAnalysis

namespace ParseState

variable {first second : ParseState}

/-- The state with nothing but what can be seen: the tokens in front of the end, and that end. -/
def trimmed (state : ParseState) : ParseState :=
  { state with
    rest := state.rest.takeWhile (!·.isEnd)
    closing := (state.rest.dropWhile (!·.isEnd)).headD state.closing }

theorem trimmed_current (state : ParseState) : state.trimmed.current = state.current := by
  rcases state with ⟨rest, previous, depth, operators, closing⟩
  cases rest with
  | nil => rfl
  | cons token rest => cases ended : token.isEnd <;> simp [trimmed, current, ended]

theorem trimmed_advance (state : ParseState) : state.trimmed.advance = state.advance.trimmed := by
  rcases state with ⟨rest, previous, depth, operators, closing⟩
  cases rest with
  | nil => rfl
  | cons token rest => cases ended : token.isEnd <;> simp [trimmed, advance, ended]

structure SeesTheSame (first second : ParseState) : Prop where
  closed : first.closing.isEnd = true
  otherClosed : second.closing.isEnd = true
  trimmed : first.trimmed = second.trimmed

theorem SeesTheSame.advance (same : SeesTheSame first second) :
    SeesTheSame first.advance second.advance where
  closed := first.advance_closing ▸ same.closed
  otherClosed := second.advance_closing ▸ same.otherClosed
  trimmed := by rw [← trimmed_advance, ← trimmed_advance, same.trimmed]

theorem SeesTheSame.current (same : SeesTheSame first second) : first.current = second.current := by
  rw [← first.trimmed_current, same.trimmed, second.trimmed_current]

theorem SeesTheSame.atDepth (same : SeesTheSame first second) (depth : Nat) :
    SeesTheSame { first with depth := depth } { second with depth := depth } :=
  ⟨same.closed, same.otherClosed,
    congrArg (fun state => { state with depth := depth }) same.trimmed⟩

theorem SeesTheSame.atOperators (same : SeesTheSame first second) (operators : Nat) :
    SeesTheSame { first with operators := operators } { second with operators := operators } :=
  ⟨same.closed, same.otherClosed,
    congrArg (fun state => { state with operators := operators }) same.trimmed⟩

theorem SeesTheSame.operators (same : SeesTheSame first second) :
    first.operators = second.operators :=
  (congrArg ParseState.operators same.trimmed :)

theorem SeesTheSame.depth (same : SeesTheSame first second) : first.depth = second.depth :=
  (congrArg ParseState.depth same.trimmed :)

def sameInput : Likeness where
  alike := SeesTheSame
  closed same := ⟨same.closed, same.otherClosed⟩
  current := SeesTheSame.current
  advance := SeesTheSame.advance
  previous same := (congrArg ParseState.previous same.trimmed :)
  depth := SeesTheSame.depth
  atDepth := SeesTheSame.atDepth

end ParseState

namespace Parse

open ParseState (sameInput uncounted)

theorem congruent_tooLong {α : Type} : Congruent sameInput (tooLong : Parse α) := by
  intro first second same
  change Matches sameInput (.error (.expressionTooLong maxOperators first.current.span) _)
    (.error (.expressionTooLong maxOperators second.current.span) _)
  rw [same.current, same.operators]
  exact .error _ (same.atOperators _)

theorem sameInput_counting : CompositionalCounting (Congruent sameInput) where
  toCompositional := congruent_compositional sameInput
  tooLong {α} := @congruent_tooLong α
  countOperator := by
    intro first second same
    unfold EStateM.run countOperator
    rw [same.operators]
    split
    · exact .ok () (same.atOperators _)
    · exact congruent_tooLong same
  resetOperators _ _ same := .ok () (same.atOperators 0)
  unary := (congruent_compositional sameInput).unary congruent_enter congruent_leave

/-- Reading a program depends on nothing but what can be seen. -/
theorem program_sameInput : Congruent sameInput program :=
  (congruent_compositional sameInput).program sameInput_counting.expression

end Parse

namespace Program

/-- Two lists of tokens that are left alike are the same program, or refused for the same reason. -/
theorem ofTokens_eq_of_sameInput {tokens others : List Token}
    (same : ParseState.SeesTheSame (.ofTokens tokens) (.ofTokens others)) :
    ofTokens tokens = ofTokens others := by
  rw [ofTokens, ofTokens, ParseState.program_result, ParseState.program_result]
  exact (Parse.program_sameInput same).result

/-- Where a list of tokens ends that does not say so: directly behind its last token. -/
def endOf (tokens : List Token) : Span :=
  match tokens.getLast? with
  | some last => last.span.behind last.lexeme
  | none => .origin

theorem trimmed_ofTokens (tokens : List Token) :
    (ParseState.ofTokens tokens).trimmed =
      ⟨tokens.takeWhile (!·.isEnd), .origin, 0, 0,
        (tokens.dropWhile (!·.isEnd)).headD (.closing (endOf tokens))⟩ :=
  rfl

/-- An end that is given is the end if there is no earlier one. -/
theorem trimmed_ofTokens_append {ending : Token} (ended : ending.isEnd = true)
    (tokens behind : List Token) :
    (ParseState.ofTokens (tokens ++ ending :: behind)).trimmed =
      ⟨tokens.takeWhile (!·.isEnd), .origin, 0, 0, (tokens.dropWhile (!·.isEnd)).headD ending⟩ := by
  rw [trimmed_ofTokens]
  congr 1
  · rw [List.takeWhile_append, List.takeWhile_cons]
    split
    · rename_i complete
      simp [ended, (List.takeWhile_prefix _).eq_of_length complete]
    · rfl
  · generalize Token.closing _ = unseen
    induction tokens with
    | nil => simp [ended]
    | cons token tokens inductionHypothesis => cases last : token.isEnd <;> simp_all

/-- Nothing behind the first end of the input has any effect, and a list of tokens is read as if an
end stood directly behind its last token. -/
theorem ofTokens_up_to_end (tokens : List Token) :
    (∀ (ending : Token) (behind : List Token), ending.isEnd = true →
      ofTokens (tokens ++ ending :: behind) = ofTokens (tokens ++ [ending])) ∧
    ofTokens tokens = ofTokens (tokens ++ [.closing (endOf tokens)]) := by
  constructor
  · intro ending behind ended
    apply ofTokens_eq_of_sameInput
    exact ⟨rfl, rfl, by rw [trimmed_ofTokens_append ended, trimmed_ofTokens_append ended]⟩
  · apply ofTokens_eq_of_sameInput
    exact ⟨rfl, rfl, by rw [trimmed_ofTokens_append rfl, trimmed_ofTokens]⟩

/-- A semicolon behind the end is not a second statement. -/
theorem ofTokens_up_to_end_semicolon :
    (Token.closing .origin).isEnd = true ∧
      ofTokens ([⟨.symbol .semicolon, ";", ⟨0, 1, 1, 1⟩⟩] ++
        .closing .origin :: [⟨.symbol .semicolon, ";", ⟨1, 2, 1, 2⟩⟩]) =
      ofTokens ([⟨.symbol .semicolon, ";", ⟨0, 1, 1, 1⟩⟩] ++ [.closing .origin]) :=
  ⟨rfl, (ofTokens_up_to_end _).1 _ _ rfl⟩

end Program

end StagedAnalysis
