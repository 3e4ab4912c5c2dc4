import StagedAnalysis.Proofs.Reading.Compositional
/-!
Where reading stops, whatever comes of it.

A step goes forward over tokens in front of the end of the input and never back, also when it fails.
It ends on the level that it began on, unless it fails because no level is left; only then levels stay
counted that were entered.
-/
namespace StagedAnalysis

namespace ParseState

def Reaches (state later : ParseState) : Prop :=
  ∃ taken, Moves taken state later

variable {state between later : ParseState}

theorem Reaches.refl (state : ParseState) : state.Reaches state :=
  ⟨[], .refl state⟩

theorem Reaches.trans (first : state.Reaches between) (rest : between.Reaches later) :
    state.Reaches later := by
  obtain ⟨taken, moves⟩ := first
  obtain ⟨others, restMoves⟩ := rest
  exact ⟨taken ++ others, moves.trans restMoves⟩

/-- Nothing but what is left and its end counts. -/
theorem Reaches.congr {start stop : ParseState} (reaches : state.Reaches later)
    (rest : start.rest = state.rest) (closing : start.closing = state.closing)
    (stopRest : stop.rest = later.rest) (stopClosing : stop.closing = later.closing) :
    start.Reaches stop := by
  obtain ⟨taken, moves⟩ := reaches
  refine ⟨taken, ?_, moves.goesOn, ?_⟩
  · rw [rest, stopRest, moves.rest]
  · rw [closing, stopClosing, moves.closing]

/-- Tokens in front of the end of the input are only taken away. -/
theorem Reaches.ahead_length_le (reaches : state.Reaches later) :
    later.ahead.length ≤ state.ahead.length := by
  obtain ⟨taken, moves⟩ := reaches
  rw [moves.ahead, List.length_append]
  exact Nat.le_add_left _ _

theorem Reaches.closing (reaches : state.Reaches later) : later.closing = state.closing := by
  obtain ⟨taken, moves⟩ := reaches
  exact moves.closing

theorem reaches_advance (state : ParseState) : state.Reaches state.advance := by
  obtain ⟨rest, previous, depth, operators, closing⟩ := state
  cases rest with
  | nil => exact .refl _
  | cons token rest =>
      cases ended : token.isEnd with
      | true => simpa [advance, ended] using Reaches.refl _
      | false =>
          refine ⟨[token], ?_, List.forall_mem_singleton.mpr ended, ?_⟩
          · simp [advance, ended]
          · simp [advance, ended]

theorem Ready.advance (ready : state.Ready) : state.advance.Ready :=
  ⟨state.advance_closing ▸ ready.closing, state.advance_depth ▸ ready.depth,
    state.advance_operators ▸ ready.operators⟩

theorem Ready.leave (ready : state.Ready) (levels : Nat) : (state.leave levels).Ready :=
  ⟨ready.closing, Nat.le_trans (Nat.sub_le _ _) ready.depth, ready.operators⟩

end ParseState

namespace Parse

variable {α : Type}

abbrev Outcome (α : Type) := EStateM.Result AnalysisError ParseState α

def Outcome.result : Outcome α → Except AnalysisError α
  | .ok value _ => .ok value
  | .error error _ => .error error

def Outcome.state : Outcome α → ParseState
  | .ok _ later => later
  | .error _ stopped => stopped

def Outcome.isTooDeep : Outcome α → Bool
  | .ok _ _ => false
  | .error error _ => error.isTooDeep

def Outcome.mapState (change : ParseState → ParseState) : Outcome α → Outcome α
  | .ok value later => .ok value (change later)
  | .error error stopped => .error error (change stopped)

theorem Outcome.state_mapState (change : ParseState → ParseState) (outcome : Outcome α) :
    (outcome.mapState change).state = change outcome.state := by
  cases outcome <;> rfl

theorem Outcome.isTooDeep_mapState (change : ParseState → ParseState) (outcome : Outcome α) :
    (outcome.mapState change).isTooDeep = outcome.isTooDeep := by
  cases outcome <;> rfl

/-- A step one level further in is done there, if there is a level left, and left again. -/
theorem run_nested (step : Parse α) (state : ParseState) :
    EStateM.run (fun state => nested step state) state =
      if state.depth < maxDepth then
        Outcome.mapState (·.leave 1) (step.run state.entered)
      else EStateM.run tooDeep state := by
  unfold EStateM.run nested enter
  by_cases fits : state.depth < maxDepth
  · simp only [fits, if_true]
    split
    · rename_i value inside given
      rw [show step state.entered = _ from given]
      rfl
    · rename_i error stopped failed
      rw [show step state.entered = _ from failed]
      rfl
  · simp only [fits, if_false, tooDeep]

/-! ### Going forward -/

open ParseState (Reaches)

/-- Whether it succeeds or fails, the step stops further on or where it began. -/
def GoesForward (step : Parse α) : Prop :=
  ∀ state : ParseState, state.Reaches (Outcome.state (step.run state))

theorem GoesForward.reaches {step : Parse α} (forward : GoesForward step) {state later : ParseState}
    {value : α} (given : step.Gives state value later) : state.Reaches later := by
  have reaches := forward state
  rwa [show step.run state = .ok value later from given] at reaches

theorem goesForward_compositional : Compositional @GoesForward where
  pure _ _ := .refl _
  bind {_ _ step next} first rest := by
    intro state
    have reaches := first state
    rw [EStateM.run_bind]
    cases outcome : step.run state with
    | ok value between =>
        rw [outcome] at reaches
        exact reaches.trans (rest value between)
    | error error stopped =>
        rw [outcome] at reaches
        exact reaches
  current {_ next} each := by
    intro state
    obtain forward | ⟨error, _, rejects⟩ := each state.current
    · exact forward state
    · change state.Reaches (Outcome.state ((next state.current).run state))
      rw [rejects]
      exact .refl _
  advance := ParseState.reaches_advance
  previous _ := .refl _
  tooDeep _ := (Reaches.refl _).congr rfl rfl rfl rfl
  nested {_ step} inner := by
    intro state
    rw [run_nested]
    split
    · rw [Outcome.state_mapState]
      exact (inner state.entered).congr rfl rfl rfl rfl
    · exact (Reaches.refl _).congr rfl rfl rfl rfl
  many each _ _ := fun state => each state.rest state

theorem goesForward_counting : CompositionalCounting @GoesForward where
  toCompositional := goesForward_compositional
  tooLong _ := (Reaches.refl _).congr rfl rfl rfl rfl
  countOperator := by
    intro state
    unfold EStateM.run countOperator
    split <;> exact (Reaches.refl _).congr rfl rfl rfl rfl
  resetOperators _ := (Reaches.refl _).congr rfl rfl rfl rfl
  unary inner := by
    refine goesForward_compositional.unary ?_ (fun levels state => ?_) inner
    · intro state
      unfold EStateM.run enter
      split <;> exact (Reaches.refl _).congr rfl rfl rfl rfl
    · exact (Reaches.refl _).congr rfl rfl rfl rfl

theorem program_goesForward : GoesForward program :=
  goesForward_compositional.program goesForward_counting.expression

/-! ### Keeping the depth -/

/-- The step ends on the level that it began on, unless no level was left. -/
def KeepsDepth (step : Parse α) : Prop :=
  ∀ state : ParseState, Outcome.isTooDeep (step.run state) = false →
    (Outcome.state (step.run state)).depth = state.depth

theorem KeepsDepth.depth {step : Parse α} (keeps : KeepsDepth step) {state later : ParseState}
    {value : α} (given : step.Gives state value later) : later.depth = state.depth := by
  have kept := keeps state
  rw [show step.run state = .ok value later from given] at kept
  exact kept rfl

theorem keepsDepth_compositional : Compositional @KeepsDepth where
  pure _ _ _ := rfl
  bind {_ _ step next} first rest := by
    intro state within
    have kept := first state
    rw [EStateM.run_bind] at within ⊢
    cases outcome : step.run state with
    | ok value between =>
        rw [outcome] at within kept
        exact (rest value between within).trans (kept rfl)
    | error error stopped =>
        rw [outcome] at within kept
        exact kept within
  current {_ next} each := by
    intro state
    obtain keeps | ⟨error, _, rejects⟩ := each state.current
    · exact keeps state
    · change Outcome.isTooDeep ((next state.current).run state) = false →
        (Outcome.state ((next state.current).run state)).depth = _
      rw [rejects]
      exact fun _ => rfl
  advance state _ := state.advance_depth
  previous _ _ := rfl
  tooDeep _ within := by cases within
  nested {_ step} inner := by
    intro state
    rw [run_nested]
    split
    · rw [Outcome.isTooDeep_mapState, Outcome.state_mapState]
      intro within
      exact congrArg (· - 1) (inner state.entered within)
    · intro within
      cases within
  many each _ _ := fun state => each state.rest state

theorem run_look {β : Type} (next : Token → Parse β) (state : ParseState) :
    (current >>= next).run state = (next state.current).run state :=
  rfl

section OperatorRuns

variable {state : ParseState} {levels : Nat} {op : UnaryOp}

theorem run_operatorRun_none (noOperator : state.current.kind.unaryOp? = none) :
    (operatorRun levels).run state = .ok [] state := by
  cases levels <;> rw [operatorRun, run_look, noOperator] <;> rfl

variable (isOperator : state.current.kind.unaryOp? = some op)

include isOperator

theorem run_operatorRun_zero : (operatorRun 0).run state = tooDeep.run state := by
  rw [operatorRun, run_look, isOperator]

theorem run_operatorRun_refused (full : ¬state.depth < maxDepth) :
    (operatorRun (levels + 1)).run state = tooDeep.run state := by
  have refused : enter.run state = tooDeep.run state := if_neg full
  rw [operatorRun, run_look, isOperator]
  dsimp only
  rw [EStateM.run_bind, refused]
  rfl

theorem run_operatorRun_succ (fits : state.depth < maxDepth) :
    (operatorRun (levels + 1)).run state = EStateM.run (operatorRun levels >>= fun inner =>
      pure ((op, state.current.span) :: inner)) state.entered.advance := by
  have entered : enter.run state = .ok () state.entered := if_pos fits
  rw [operatorRun, run_look, isOperator]
  dsimp only
  rw [EStateM.run_bind, entered]
  rfl

end OperatorRuns

def CountsLevels (state : ParseState) : Outcome (List (UnaryOp × Span)) → Prop
  | .ok run later => later.depth = state.depth + run.length
  | .error error _ => error.isTooDeep = true

theorem operatorRun_countsLevels (levels : Nat) (state : ParseState) :
    CountsLevels state ((operatorRun levels).run state) := by
  induction levels generalizing state with
  | zero =>
      cases next : state.current.kind.unaryOp? with
      | none =>
          rw [run_operatorRun_none next]
          rfl
      | some op =>
          rw [run_operatorRun_zero next]
          rfl
  | succ levels inductionHypothesis =>
      cases next : state.current.kind.unaryOp? with
      | none =>
          rw [run_operatorRun_none next]
          rfl
      | some op =>
          by_cases fits : state.depth < maxDepth
          · have counted := inductionHypothesis state.entered.advance
            rw [run_operatorRun_succ next fits, EStateM.run_bind]
            cases outcome : (operatorRun levels).run state.entered.advance with
            | ok run later =>
                rw [outcome, CountsLevels, ParseState.advance_depth, ParseState.entered_depth] at counted
                change later.depth = state.depth + (run.length + 1)
                omega
            | error error stopped =>
                rw [outcome] at counted
                exact counted
          · rw [run_operatorRun_refused next fits]
            rfl

/-- The levels of a run of operators are left before its operand is read. -/
theorem KeepsDepth.unary {operand : Parse Expression} (inner : KeepsDepth operand) :
    KeepsDepth (unary operand) := by
  intro state
  have counted := operatorRun_countsLevels maxDepth state
  rw [Parse.unary, EStateM.run_bind]
  cases outcome : (operatorRun maxDepth).run state with
  | error error stopped =>
      rw [outcome] at counted
      have tooDeep : error.isTooDeep = true := counted
      intro within
      have notTooDeep : error.isTooDeep = false := within
      rw [tooDeep] at notTooDeep
      cases notTooDeep
  | ok run between =>
      rw [outcome] at counted
      have depth : (between.leave run.length).depth = state.depth := by
        rw [ParseState.leave_depth, counted, Nat.add_sub_cancel]
      change Outcome.isTooDeep (EStateM.run (operand >>= _) (between.leave run.length)) = false →
        (Outcome.state (EStateM.run (operand >>= _) (between.leave run.length))).depth = _
      rw [← depth]
      exact keepsDepth_compositional.bind inner (fun _ => keepsDepth_compositional.pure _) _

theorem keepsDepth_counting : CompositionalCounting @KeepsDepth where
  toCompositional := keepsDepth_compositional
  tooLong _ _ := rfl
  countOperator := by
    intro state
    unfold EStateM.run countOperator
    split <;> exact fun _ => rfl
  resetOperators _ _ := rfl
  unary := KeepsDepth.unary

theorem program_keepsDepth : KeepsDepth program :=
  keepsDepth_compositional.program keepsDepth_counting.expression

/-! ### Keeping the limits -/

/-- A step that succeeds has not gone beyond a limit. -/
def KeepsReady (step : Parse α) : Prop :=
  ∀ {state value later}, state.Ready → step.Gives state value later → later.Ready

theorem keepsReady_compositional : Compositional @KeepsReady where
  pure _ _ _ _ ready given := (gives_pure.mp given).2 ▸ ready
  bind first rest := by
    intro state value later ready given
    obtain ⟨result, between, firstGiven, restGiven⟩ := gives_bind.mp given
    exact rest result (first ready firstGiven) restGiven
  current {_ next} each := by
    intro state value later ready given
    have given : (next state.current).Gives state value later := gives_look.mp given
    obtain keeps | ⟨error, _, rejects⟩ := each state.current
    · exact keeps ready given
    · exact absurd (rejects ▸ given) gives_throw
  advance := by
    intro state value later ready given
    obtain ⟨_, rfl⟩ := gives_advance.mp given
    exact ready.advance
  previous ready given := (gives_previous.mp given).2 ▸ ready
  tooDeep _ given := absurd given gives_tooDeep
  nested {_ step} inner := by
    intro state value later ready given
    obtain ⟨fits, inside, innerGiven, rfl⟩ := gives_nested.mp given
    exact (inner (ready.entered fits) innerGiven).leave 1
  many each _ _ := by
    intro state values later ready given
    exact each state.rest ready given

theorem keepsReady_counting : CompositionalCounting @KeepsReady where
  toCompositional := keepsReady_compositional
  tooLong _ given := absurd given gives_tooLong
  countOperator := by
    intro state value later ready given
    obtain ⟨fits, rfl⟩ := gives_countOperator.mp given
    exact ⟨ready.closing, ready.depth, fits⟩
  resetOperators := by
    intro state value later ready given
    obtain rfl := gives_resetOperators.mp given
    exact ready.uncounted
  unary inner := by
    refine keepsReady_compositional.unary ?_ (fun levels => ?_) inner
    · intro state value later ready given
      obtain ⟨fits, rfl⟩ := gives_enter.mp given
      exact ready.entered fits
    · intro state value later ready given
      obtain rfl := gives_leave.mp given
      exact ready.leave levels

theorem keepsReady_statement (levels : Nat) : KeepsReady (statement levels) :=
  keepsReady_compositional.statement keepsReady_counting.expression levels

end Parse

/-! ### Calls -/

namespace ParseState

theorem program_result (state : ParseState) :
    state.program.1 = Parse.Outcome.result (Parse.program.run state) := by
  unfold program EStateM.run
  cases Parse.program state <;> rfl

theorem program_eq_ok_iff {state : ParseState} {program : Program} :
    state.program.1 = .ok program ↔ ∃ later, Parse.program.Gives state program later := by
  rw [program_result]
  unfold Parse.Gives
  cases Parse.program.run state <;> simp [Parse.Outcome.result]

theorem program_state (state : ParseState) :
    state.program.2 = Parse.Outcome.state (Parse.program.run state) := by
  unfold program EStateM.run
  cases Parse.program state <;> rfl

end ParseState

end StagedAnalysis
