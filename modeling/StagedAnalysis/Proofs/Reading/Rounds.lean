import StagedAnalysis.Proofs.Reading.Loops
/-!
The loops of the reader.

There are three kinds: a step is repeated, operands are joined to the left one, and the operators in front
of an operand are collected. The first is bounded by the tokens that are left, the second by the operators
that an expression may still have, and the third by the levels that are left. Each bound fits, so each is
a loop that runs at most once for each of the tokens that are left.
-/
namespace StagedAnalysis

namespace Parse

variable {α : Type} {state later : ParseState} {levels : Nat}

/-! ### Rows -/

def behind (earlier : List α) (step : Parse (List α)) : Parse (List α) := do
  return earlier ++ (← step)

@[simp] theorem behind_nil (step : Parse (List α)) : behind [] step = step := by
  simp only [behind, List.nil_append, bind_pure]

theorem behind_cons (earlier : List α) (first : α) (step : Parse (List α)) :
    behind earlier (step >>= fun others => pure (first :: others)) =
      behind (earlier ++ [first]) step := by
  simp only [behind, bind_assoc, pure_bind, List.append_assoc, List.singleton_append]

theorem run_behind_of_nil {step : Parse (List α)} (earlier : List α)
    (nothing : step.run state = .ok [] state) :
    (behind earlier step).run state = .ok earlier state := by
  rw [behind, EStateM.run_bind, nothing]
  exact congrArg (EStateM.Result.ok · state) (List.append_nil earlier)

/-! ### Repeating a step -/

def collectNext (step : Parse α) (earlier : List α) : Parse (List α) := do
  return earlier ++ [← step]

def collecting (goesOn : Token → Bool) (step : Parse α) (earlier : List α) (token : Token) :
    Option (Parse (List α)) :=
  (Option.guard goesOn token).map fun _ => collectNext step earlier

section Repeating

variable {step other : Parse α} {goesOn : Token → Bool}

/-- Where the repetition goes on behind earlier results, it is a step and a repetition behind one result
more. -/
theorem run_behind_repeatWhile (goes : goesOn state.current = true) (token : Token)
    (budget : List Token) (earlier : List α) :
    (behind earlier (repeatWhile goesOn step (token :: budget))).run state =
      (collectNext step earlier >>= fun all => behind all (repeatWhile goesOn step budget)).run
        state := by
  have unrolled : (repeatWhile goesOn step (token :: budget)).run state =
      EStateM.run (step >>= fun first => repeatWhile goesOn step budget >>= fun others =>
        pure (first :: others)) state := repeatWhile_of_goesOn goes token budget
  rw [behind, run_bind_congr unrolled fun _ => rfl, collectNext, bind_assoc, bind_assoc]
  simp only [pure_bind, ← behind_cons]
  rfl

variable (agree : Agree levels step other) (progresses : Progresses other)
  (stops : ∀ token : Token, token.isEnd = true → goesOn token = false)

include agree progresses stops

/-- A repetition with a budget is a loop, as long as the budget is as long as what is left. -/
theorem Agree.unrolls_many :
    Unrolls (fun budget state => state.Covered levels ∧ state.rest.length ≤ budget.length)
      (collecting goesOn step) fun (budget : List Token) earlier =>
        behind earlier (repeatWhile goesOn other budget) where
  closed fits := fits.1.closed
  ended {earlier token} ending :=
    Option.map_eq_none_iff.mpr (Option.guard_eq_none_iff.mpr (stops token ending))
  stops {budget earlier state} none :=
    run_behind_of_nil earlier (repeatWhile_of_stops
      (Option.guard_eq_none_iff.mp (Option.map_eq_none_iff.mp none)) budget)
  goesOn {budget earlier state round} fits asked inside := by
    obtain ⟨covered, enough⟩ := fits
    obtain ⟨token, guarded, rfl⟩ := Option.map_eq_some_iff.mp asked
    obtain ⟨_, goes⟩ := Option.guard_eq_some_iff.mp guarded
    have same : (collectNext step earlier).run state = (collectNext other earlier).run state :=
      run_bind_congr (agree.same covered) fun _ => rfl
    cases budget with
    | nil =>
        have empty : state.rest = [] := List.eq_nil_of_length_eq_zero (Nat.le_zero.mp enough)
        rw [ParseState.current, empty, List.headD_nil, covered.closed] at inside
        cases inside
    | cons token budget =>
        refine ⟨budget, ?_, ?_⟩
        · rw [run_behind_repeatWhile goes, run_bind_congr same fun _ => rfl]
        · intro values later given
          obtain ⟨value, between, otherGiven, last⟩ := gives_bind.mp (same.symm.trans given)
          obtain ⟨_, rfl⟩ := gives_pure.mp last
          obtain ⟨first, taken, moves⟩ := progresses covered.closed otherGiven
          have shorter := congrArg List.length moves.rest
          have nearer := congrArg List.length moves.ahead
          simp only [List.length_append, List.length_cons, List.length_map] at shorter nearer enough
          exact ⟨⟨agree.keeps covered otherGiven, by omega⟩, by omega⟩

/-- A repetition is a loop that runs at most once for each of the tokens that are left. -/
theorem Agree.cyclesWithin_many {rounds : Nat} (covered : state.Covered levels)
    (enough : state.ahead.length ≤ rounds) :
    CyclesWithin rounds state (collecting goesOn step) [] (Parse.many goesOn other) := by
  have cycles : CyclesWithin rounds state (collecting goesOn step) []
      (behind [] (repeatWhile goesOn other state.rest)) :=
    (agree.unrolls_many progresses stops).cyclesWithin ⟨covered, Nat.le_refl _⟩ enough
  rw [behind_nil] at cycles
  exact cycles

end Repeating

/-! ### Operators of one precedence -/

/-- The step never lowers the count of operators, whether it succeeds or fails. -/
def KeepsCounted (step : Parse α) : Prop :=
  ∀ state : ParseState, state.operators ≤ (Outcome.state (step.run state)).operators

theorem KeepsCounted.operators_le {step : Parse α} (keeps : KeepsCounted step) {value : α}
    (given : step.Gives state value later) : state.operators ≤ later.operators := by
  have kept := keeps state
  rwa [show step.run state = .ok value later from given] at kept

theorem keepsCounted_compositional : Compositional @KeepsCounted where
  pure _ _ := Nat.le_refl _
  bind {_ _ step next} first rest := by
    intro state
    have kept := first state
    rw [EStateM.run_bind]
    cases outcome : step.run state with
    | ok value between =>
        rw [outcome] at kept
        exact Nat.le_trans kept (rest value between)
    | error error stopped =>
        rw [outcome] at kept
        exact kept
  current {_ next} each := by
    intro state
    obtain keeps | ⟨error, _, rejects⟩ := each state.current
    · exact keeps state
    · change state.operators ≤ (Outcome.state ((next state.current).run state)).operators
      rw [rejects]
      exact Nat.le_refl _
  advance state := Nat.le_of_eq state.advance_operators.symm
  previous _ := Nat.le_refl _
  tooDeep _ := Nat.le_refl _
  nested {_ step} inner := by
    intro state
    rw [run_nested]
    split
    · rw [Outcome.state_mapState]
      exact inner state.entered
    · exact Nat.le_refl _
  many each _ _ := fun state => each state.rest state

theorem keepsCounted_countOperator : KeepsCounted countOperator := by
  intro state
  unfold EStateM.run countOperator
  split <;> exact Nat.le_succ _

theorem KeepsCounted.binaries {operand : Parse Expression} (inner : KeepsCounted operand)
    (precedences : List Precedence) : KeepsCounted
      (precedences.foldr (fun precedence tighter => binary tighter precedence) operand) :=
  @CompositionalFamily.binaries Unit _ keepsCounted_compositional.family keepsCounted_countOperator
    (fun _ => Nat.le_succ _) (fun _ => operand) inner precedences

theorem KeepsCounted.operand {inner : Parse Expression} (innerKeeps : KeepsCounted inner) :
    KeepsCounted (unary (primary inner)) := by
  refine keepsCounted_compositional.unary ?_ (fun levels state => Nat.le_refl _) ?_
  · intro state
    unfold EStateM.run enter
    split <;> exact Nat.le_refl _
  · exact @CompositionalFamily.primary Unit _ keepsCounted_compositional.family (fun _ => inner)
      innerKeeps

theorem keepsCounted_nestedExpression (levels : Nat) : KeepsCounted (nestedExpression levels) := by
  induction levels with
  | zero => exact keepsCounted_compositional.tooDeep
  | succ levels inductionHypothesis =>
      exact keepsCounted_compositional.nested (inductionHypothesis.operand.binaries Precedence.all)

def joinNext (operand : Parse Expression) (left : Expression) (op : BinaryOp) : Parse Expression := do
  countOperator
  let _ ← advance
  let right ← operand
  return .join op left right

def joining (operand : Parse Expression) (precedence : Precedence) (left : Expression)
    (token : Token) : Option (Parse Expression) :=
  (operatorAt precedence token).map (joinNext operand left)

section Joining

variable {operand : Parse Expression} {precedence : Precedence} {budget : Nat} {left : Expression}
  {op : BinaryOp}

theorem run_countOperator (fits : state.operators < maxOperators) :
    countOperator.run state = .ok () state.counted :=
  if_pos fits

theorem run_countOperator_refused (full : ¬state.operators < maxOperators) :
    countOperator.run state = tooLong.run state :=
  if_neg full

theorem run_joinNext (fits : state.operators < maxOperators) :
    (joinNext operand left op).run state =
      EStateM.run (operand >>= fun right => pure (.join op left right)) state.counted.advance := by
  rw [joinNext, EStateM.run_bind, run_countOperator fits]
  rfl

theorem run_joinNext_refused (full : ¬state.operators < maxOperators) :
    (joinNext operand left op).run state = tooLong.run state := by
  rw [joinNext, EStateM.run_bind, run_countOperator_refused full]
  rfl

theorem run_chain_none (noOperator : operatorAt precedence state.current = none) :
    (chain operand precedence budget left).run state = .ok left state := by
  cases budget <;> rw [chain, run_look, noOperator] <;> rfl

variable (isOperator : operatorAt precedence state.current = some op)

include isOperator

theorem run_chain_refused (full : ¬state.operators < maxOperators) :
    (chain operand precedence budget left).run state = tooLong.run state := by
  cases budget with
  | zero => rw [chain, run_look, isOperator]
  | succ budget =>
      rw [chain, run_look, isOperator]
      dsimp only
      rw [EStateM.run_bind, run_countOperator_refused full]
      rfl

theorem run_chain_succ (fits : state.operators < maxOperators) :
    (chain operand precedence (budget + 1) left).run state = EStateM.run (operand >>= fun right =>
      chain operand precedence budget (.join op left right)) state.counted.advance := by
  rw [chain, run_look, isOperator]
  dsimp only
  rw [EStateM.run_bind, run_countOperator fits]
  rfl

end Joining

/-- Reading on behind a left operand is a loop, as long as all the operators may be counted that are left
of the limit. -/
theorem Agree.unrolls_chain {operand other : Parse Expression} {precedence : Precedence}
    (agree : Agree levels operand other) (forward : GoesForward other)
    (counting : KeepsCounted other) :
    Unrolls (fun budget state => state.Covered levels ∧ maxOperators ≤ state.operators + budget)
      (joining operand precedence) (chain other precedence) where
  closed fits := fits.1.closed
  ended {left token} ending := by
    have isEnd : token.kind = .endOfInput := beq_iff_eq.mp ending
    rw [joining, operatorAt, isEnd]
    rfl
  stops none := run_chain_none (Option.map_eq_none_iff.mp none)
  goesOn {budget left state round} fits asked inside := by
    obtain ⟨covered, enough⟩ := fits
    obtain ⟨op, isOperator, rfl⟩ := Option.map_eq_some_iff.mp asked
    by_cases room : state.operators < maxOperators
    · obtain ⟨fewer, rfl⟩ : ∃ fewer, budget = fewer + 1 := ⟨budget - 1, by omega⟩
      have behind : state.counted.advance.Covered levels :=
        ParseState.Covered.advance ⟨covered.closed, covered.covers⟩
      have nearer := @ParseState.ahead_length_advance state.counted covered.closed inside
      have joined : (joinNext operand left op).run state = EStateM.run (other >>= fun right =>
          pure (.join op left right)) state.counted.advance :=
        (run_joinNext room).trans (run_bind_congr (agree.same behind) fun _ => rfl)
      refine ⟨fewer, ?_, ?_⟩
      · rw [run_chain_succ isOperator room, run_bind_congr joined fun _ => rfl, bind_assoc]
        rfl
      · intro value later given
        obtain ⟨right, between, otherGiven, last⟩ := gives_bind.mp (joined.symm.trans given)
        obtain ⟨_, rfl⟩ := gives_pure.mp last
        have counted := counting.operators_le otherGiven
        have shorter := (forward.reaches otherGiven).ahead_length_le
        rw [ParseState.advance_operators, ParseState.counted_operators] at counted
        rw [ParseState.counted_ahead] at nearer
        exact ⟨⟨agree.keeps behind otherGiven, by omega⟩, by omega⟩
    · refine ⟨budget, ?_, ?_⟩
      · rw [run_chain_refused isOperator room, run_bind_congr (run_joinNext_refused room) fun _ => rfl]
        rfl
      · intro value later given
        exact absurd ((run_joinNext_refused room).symm.trans given) gives_tooLong

/-- Reading on behind a left operand is a loop that runs at most once for each of the tokens that are
left. -/
theorem Agree.cyclesWithin_chain {operand other : Parse Expression} {precedence : Precedence}
    {rounds : Nat} (agree : Agree levels operand other) (forward : GoesForward other)
    (counting : KeepsCounted other) (covered : state.Covered levels) (left : Expression)
    (enough : state.ahead.length ≤ rounds) :
    CyclesWithin rounds state (joining operand precedence) left
      (chain other precedence maxOperators left) :=
  (agree.unrolls_chain forward counting).cyclesWithin ⟨covered, Nat.le_add_left _ _⟩ enough

/-! ### Operators in front of an operand -/

def signNext (earlier : List (UnaryOp × Span)) (op : UnaryOp) : Parse (List (UnaryOp × Span)) := do
  enter
  let sign ← advance
  return earlier ++ [(op, sign.span)]

def signing (earlier : List (UnaryOp × Span)) (token : Token) :
    Option (Parse (List (UnaryOp × Span))) :=
  token.kind.unaryOp?.map (signNext earlier)

theorem run_signNext {earlier : List (UnaryOp × Span)} {op : UnaryOp} (fits : state.depth < maxDepth) :
    (signNext earlier op).run state =
      .ok (earlier ++ [(op, state.current.span)]) state.entered.advance := by
  have entered : enter.run state = .ok () state.entered := if_pos fits
  rw [signNext, EStateM.run_bind, entered]
  rfl

theorem run_signNext_refused {earlier : List (UnaryOp × Span)} {op : UnaryOp}
    (full : ¬state.depth < maxDepth) : (signNext earlier op).run state = tooDeep.run state := by
  have refused : enter.run state = tooDeep.run state := if_neg full
  rw [signNext, EStateM.run_bind, refused]
  rfl

theorem run_operatorRun_full {op : UnaryOp} (isOperator : state.current.kind.unaryOp? = some op)
    (full : ¬state.depth < maxDepth) : (operatorRun levels).run state = tooDeep.run state := by
  cases levels with
  | zero => exact run_operatorRun_zero isOperator
  | succ levels => exact run_operatorRun_refused isOperator full

/-- Collecting operators is a loop, as long as the levels are enough. -/
theorem unrolls_operatorRun : Unrolls (fun levels state => state.Covered levels) signing
    fun levels earlier => behind earlier (operatorRun levels) where
  closed covered := covered.closed
  ended {earlier token} ending := by
    have isEnd : token.kind = .endOfInput := beq_iff_eq.mp ending
    rw [signing, isEnd]
    rfl
  stops {levels earlier state} none :=
    run_behind_of_nil earlier (run_operatorRun_none (Option.map_eq_none_iff.mp none))
  goesOn {levels earlier state round} covered asked inside := by
    obtain ⟨op, isOperator, rfl⟩ := Option.map_eq_some_iff.mp asked
    by_cases room : state.depth < maxDepth
    · have covers := covered.covers
      obtain ⟨fewer, rfl⟩ : ∃ fewer, levels = fewer + 1 := ⟨levels - 1, by omega⟩
      refine ⟨fewer, ?_, ?_⟩
      · have signed : (signNext earlier op).run state = EStateM.run
            (pure (earlier ++ [(op, state.current.span)])) state.entered.advance := run_signNext room
        rw [behind, run_bind_congr (run_operatorRun_succ isOperator room) fun _ => rfl,
          run_bind_congr signed fun _ => rfl, pure_bind, ← behind_cons]
        rfl
      · intro value later given
        cases (run_signNext room).symm.trans given
        have nearer := @ParseState.ahead_length_advance state.entered covered.closed inside
        rw [ParseState.entered_ahead] at nearer
        exact ⟨covered.entered.advance, by omega⟩
    · refine ⟨levels, ?_, ?_⟩
      · rw [behind, run_bind_congr (run_operatorRun_full isOperator room) fun _ => rfl,
          run_bind_congr (run_signNext_refused room) fun _ => rfl]
        rfl
      · intro value later given
        exact absurd ((run_signNext_refused room).symm.trans given) gives_tooDeep

/-- Collecting operators is a loop that runs at most once for each of the tokens that are left. -/
theorem cyclesWithin_operatorRun {rounds : Nat} (closed : state.closing.isEnd = true)
    (enough : state.ahead.length ≤ rounds) :
    CyclesWithin rounds state signing [] (operatorRun maxDepth) := by
  rw [← behind_nil (operatorRun maxDepth)]
  exact unrolls_operatorRun.cyclesWithin (ParseState.covered_maxDepth closed) enough

end Parse

end StagedAnalysis
