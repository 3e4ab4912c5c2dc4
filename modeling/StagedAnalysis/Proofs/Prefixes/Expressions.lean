import StagedAnalysis.Proofs.Prefixes.Unlimited
import StagedAnalysis.Proofs.Prefixes.Steps
/-!
Expressions are read with one token of foresight.

The reader goes along the grammar: from an operand to the operators in front of it, to the six levels
of binary operators, and to expressions in parentheses. Where it fails, and no limit is exceeded, the
tokens that it took begin an expression, and none that goes on with the next token.
-/
namespace StagedAnalysis

open Token (Kind)
open Phrases
open Grammar

namespace Grammar

variable {phrase : Phrase} {precedence : Precedence} {kind : Kind}

theorem expressions_nonempty (phrase : Phrase) (behind : Kind) : ¬expressions phrase [] behind := by
  rintro ⟨⟨limits, level, tree, derived⟩, _⟩
  obtain ⟨kind, rest, same, _⟩ := expresses_head derived
  cases same

/-- Every phrase has a word of one token. -/
theorem opens_expressions (phrase : Phrase) :
    (expressions phrase).Opens (.keyword .trueWord) := by
  have operand : expressions .operand [.keyword .trueWord] (.symbol .semicolon) := by
    rw [expressions_operand]
    exact .inl ⟨_, ⟨_, .trueWord⟩, rfl⟩
  have prefixed : expressions .prefixed [.keyword .trueWord] (.symbol .semicolon) := by
    rw [expressions_prefixed]
    exact ⟨[], _, rfl, many_signs_iff.mpr ⟨[], rfl, by rintro ⟨op, found⟩; cases found⟩, operand⟩
  have joined (precedence : Precedence)
      (stands : expressions (operandOf precedence) [.keyword .trueWord] (.symbol .semicolon)) :
      expressions (.joined precedence) [.keyword .trueWord] (.symbol .semicolon) := by
    rw [expressions_joined]
    exact ⟨_, [], rfl, stands, .nil (by rintro ⟨op, found, _⟩; cases found)⟩
  have product := joined .product prefixed
  have sum := joined .sum product
  have relation := joined .relation sum
  have equality := joined .equality relation
  have conjunction := joined .conjunction equality
  have disjunction := joined .disjunction conjunction
  refine ⟨[], .symbol .semicolon, ?_⟩
  cases phrase with
  | expression =>
      rw [expressions_expression]
      exact disjunction
  | joined precedence => cases precedence <;> assumption
  | prefixed => exact prefixed
  | operand => exact operand

theorem meets_closing (phrase : Phrase) : Meets (expressions phrase) (only (.symbol .rightParen)) :=
  meets_of_opens (opens_only _) (ends_suits rfl)

theorem opens_parentheses : parentheses.Opens (.symbol .leftParen) :=
  (opens_only _).followedBy (meets_only _ ((opens_expressions _).followedBy (meets_closing _)))

theorem parentheses_suits (kind : Kind) : parentheses.Suits kind := by
  refine Suits.followedBy (Suits.followedBy (suits_only _ _) ?_) ?_
  · rintro behind empty
    cases empty
  · rintro behind ⟨taken, left, same, _, rfl⟩
    simp at same

/-- Behind an operand any number of operators may come, and none at all. -/
theorem meets_continuations (precedence : Precedence) :
    Meets (expressions (operandOf precedence)) (continuations precedence) :=
  ⟨[], .symbol .semicolon, .nil (by rintro ⟨op, found, _⟩; cases found), ends_suits rfl⟩

theorem opens_signs : (Many (oneOf IsSign) (¬IsSign ·)).Opens (.symbol .bang) := by
  refine ⟨[], .symbol .semicolon, many_signs_iff.mpr ⟨[.not], rfl, ?_⟩⟩
  rintro ⟨op, found⟩
  cases found

/-- Behind the operators in front of an operand the operand comes. -/
theorem meets_operand : Meets (Many (oneOf IsSign) (¬IsSign ·)) (expressions .operand) := by
  refine meets_of_opens (opens_expressions _) fun word behind stands => ?_
  obtain ⟨ops, same, _⟩ := many_signs_iff.mp stands
  refine many_signs_iff.mpr ⟨ops, same, ?_⟩
  rintro ⟨op, found⟩
  cases found

end Grammar

namespace Parse

theorem enter_limited {state stopped : ParseState} {error : AnalysisError}
    (failed : enter.Fails state error stopped) : error.exceedsLimit = true := by
  unfold Fails EStateM.run enter at failed
  split at failed
  · cases failed
  · cases failed
    rfl

theorem countOperator_limited {state stopped : ParseState} {error : AnalysisError}
    (failed : countOperator.Fails state error stopped) : error.exceedsLimit = true := by
  unfold Fails EStateM.run countOperator at failed
  split at failed
  · cases failed
  · cases failed
    rfl

theorem primary_foresees {inner : Parse Expression}
    (innerForesees : Foresees (expressions .expression) inner) :
    Foresees (expressions .operand) (primary inner) := by
  intro state closed
  rw [expressions_operand]
  refine predicts_current ?_
  split
  · rename_i operand found
    have single := Expression.atom_of_ofToken? found
    have goesOn : state.current.kind ≠ .endOfInput := by
      intro ended
      rw [ended] at single
      cases single
    have notOpening : parentheses.Begins (· ≠ state.current.kind) := by
      refine (begins_only _).followedBy.mono ?_
      rintro kind rfl same
      rw [← same] at single
      cases single
    have taken := (predicts_advance closed rfl goesOn).bind_quiet fun _ => quiet_pure operand
    exact taken.of_agree ((agree_oneOf ⟨_, single⟩).trans (agree_or_left notOpening))
  · rename_i notFound
    refine .ite (fun opened => ?_) fun notOpened => ?_
    · have atomDiffers : (oneOf IsAtom).Begins (· ≠ .symbol .leftParen) := by
        refine (begins_oneOf IsAtom).mono ?_
        rintro kind ⟨tree, single⟩ rfl
        cases single
      have row : Predicts parentheses (advance >>= fun _ => inner >>= fun operand =>
          expect .rightParen >>= fun _ => pure operand) state := by
        refine (predicts_advance closed opened (by simp)).bind closed
          (meets_only _ ((opens_expressions _).followedBy (meets_closing _))) fun _ => ?_
        exact innerForesees.bind (meets_closing _) fun operand =>
          (foresees_expect .rightParen).bind_quiet fun _ => quiet_pure operand
      refine row.of_agree ?_
      rw [opened]
      exact agree_or_right atomDiffers
    · refine predicts_throw rfl (refuses_nil [.keyword .trueWord] .endOfInput
        (.inl ⟨_, ⟨_, .trueWord⟩, rfl⟩) ?_)
      rintro word behind (stands | stands) isNext
      · obtain ⟨tree, single⟩ := begins_oneOf IsAtom word behind stands
        rw [isNext] at single
        obtain ⟨operand, found, _⟩ := Expression.ofToken?_of_atom single
        rw [notFound] at found
        cases found
      · rw [(begins_only _).followedBy word behind stands] at isNext
        exact notOpened isNext.symm

theorem operatorRun_foresees (levels : Nat) :
    Foresees (Many (oneOf IsSign) (¬IsSign ·)) (operatorRun levels) := by
  have begins : (oneOf IsSign).Begins (¬¬IsSign ·) :=
    (begins_oneOf IsSign).mono fun kind sign none => none sign
  have stops {state : ParseState} (found : state.current.kind.unaryOp? = none)
      (run : List (UnaryOp × Span)) : Predicts (Many (oneOf IsSign) (¬IsSign ·)) (pure run) state := by
    refine predicts_many_nil ?_ begins run
    rintro ⟨op, isSign⟩
    rw [found] at isSign
    cases isSign
  induction levels with
  | zero =>
      intro state closed
      refine predicts_current ?_
      split
      · exact stops ‹_› []
      · exact predicts_tooDeep
  | succ levels inductionHypothesis =>
      intro state closed
      refine predicts_current ?_
      split
      · exact stops ‹_› []
      · rename_i op found
        have goesOn : state.current.kind ≠ .endOfInput := by
          intro ended
          rw [ended] at found
          cases found
        refine .skip (fun entered => ?_) enter_limited
        obtain ⟨_, rfl⟩ := gives_enter.mp entered
        refine ⟨⟨rfl, List.forall_mem_nil _, rfl⟩, ?_⟩
        have row := (@predicts_advance state.entered _ closed rfl goesOn).bind closed
          (meets_only _ opens_signs) fun _ =>
            inductionHypothesis.bind_quiet fun inner => quiet_pure ((op, state.current.span) :: inner)
        exact row.of_agree ((agree_oneOf ⟨op, found⟩).followedBy.trans
          (agree_many_cons fun none => none ⟨op, found⟩))

theorem unary_foresees {operand : Parse Expression}
    (operandForesees : Foresees (expressions .operand) operand) :
    Foresees (expressions .prefixed) (unary operand) := by
  rw [expressions_prefixed]
  refine (operatorRun_foresees maxDepth).bind meets_operand fun operators => ?_
  intro state closed
  refine .skip (fun left => ?_) fun failed => by cases failed
  obtain rfl := gives_leave.mp left
  refine ⟨⟨rfl, List.forall_mem_nil _, rfl⟩, ?_⟩
  exact (operandForesees (state.leave _) closed).bind_quiet fun innermost => quiet_pure _

theorem chain_foresees {operand : Parse Expression} {precedence : Precedence}
    (operandForesees : Foresees (expressions (operandOf precedence)) operand) (budget : Nat)
    (left : Expression) :
    Foresees (continuations precedence) (chain operand precedence budget left) := by
  have isOperator {token : Token} {op : BinaryOp} (found : operatorAt precedence token = some op) :
      IsOperator precedence token.kind := by
    obtain ⟨sign, binds⟩ := operatorAt_eq_some_iff.mp found
    exact ⟨op, Kind.binaryOp?_eq_some_iff.mpr sign, binds⟩
  have stops {state : ParseState} (found : operatorAt precedence state.current = none)
      (left : Expression) : Predicts (continuations precedence) (pure left) state := by
    refine predicts_many_nil ?_ ?_ left
    · rintro ⟨op, sign, binds⟩
      have some := operatorAt_eq_some_iff.mpr ⟨Kind.binaryOp?_eq_some_iff.mp sign, binds⟩
      rw [found] at some
      cases some
    · exact (begins_oneOf _).followedBy.mono fun kind operator none => none operator
  induction budget generalizing left with
  | zero =>
      intro state closed
      refine predicts_current ?_
      split
      · exact stops ‹_› left
      · exact predicts_tooLong
  | succ budget inductionHypothesis =>
      intro state closed
      refine predicts_current ?_
      split
      · exact stops ‹_› left
      · rename_i op found
        have operator := isOperator found
        have goesOn : state.current.kind ≠ .endOfInput := by
          intro ended
          rw [ended] at operator
          obtain ⟨other, sign, _⟩ := operator
          cases sign
        refine .skip (fun counted => ?_) countOperator_limited
        obtain ⟨_, rfl⟩ := gives_countOperator.mp counted
        refine ⟨⟨rfl, List.forall_mem_nil _, rfl⟩, ?_⟩
        have row := (@predicts_advance state.counted _ closed rfl goesOn).bind closed
          (meets_only _ ((opens_expressions _).followedBy (meets_continuations precedence))) fun _ =>
          operandForesees.bind (meets_continuations precedence) fun right =>
            inductionHypothesis (left.join op right)
        rw [← followedBy_assoc] at row
        exact row.of_agree ((agree_oneOf operator).followedBy.followedBy.trans
          (agree_many_cons fun none => none operator))

theorem binary_foresees (precedence : Precedence) {operand : Parse Expression}
    (operandForesees : Foresees (expressions (operandOf precedence)) operand) :
    Foresees (expressions (.joined precedence)) (binary operand precedence) := by
  rw [expressions_joined]
  exact operandForesees.bind (meets_continuations precedence) fun left =>
    chain_foresees operandForesees maxOperators left

theorem expressionBody_foresees {inner : Parse Expression}
    (innerForesees : Foresees (expressions .expression) inner) :
    Foresees (expressions .expression) (expressionBody inner) := by
  rw [expressions_expression]
  exact binary_foresees .disjunction <| binary_foresees .conjunction <| binary_foresees .equality <|
    binary_foresees .relation <| binary_foresees .sum <| binary_foresees .product <|
    unary_foresees (primary_foresees innerForesees)

theorem nestedExpression_foresees (levels : Nat) :
    Foresees (expressions .expression) (nestedExpression levels) := by
  induction levels with
  | zero => exact fun state closed => predicts_tooDeep
  | succ levels inductionHypothesis =>
      intro state closed
      exact predicts_nested (expressionBody_foresees inductionHypothesis state.entered closed)

theorem expression_foresees (levels : Nat) :
    Foresees (expressions .expression) (expression levels) := by
  intro state closed
  refine .skip (fun reset => ?_) fun failed => by cases failed
  obtain rfl := gives_resetOperators.mp reset
  exact ⟨⟨rfl, List.forall_mem_nil _, rfl⟩, nestedExpression_foresees levels _ closed⟩

end Parse

end StagedAnalysis
