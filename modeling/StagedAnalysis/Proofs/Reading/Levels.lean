import Mathlib.Logic.ExistsUnique
import StagedAnalysis.Proofs.Reading.Watched
/-!
What stays of the levels that a reader counts.

Whoever watches the reader, it comes to the same: a result, a fault or a refusal, and only the report of
the refusal is the watch's own. Where there is a result or a fault, all levels that were entered have been
left. A refusal leaves the level counted that was refused, and in a run of operators in front of an
operand also the levels of those before it. So there are never more levels to leave than are counted, and
no watch is ever asked what to do then.
-/
namespace StagedAnalysis

namespace Watch

open Parse

variable {α β : Type}

/-! ### Outcomes -/

/-- Whoever watches, the outcome is the same, up to the report of a refusal, and as many levels stay
counted as it says. -/
inductive EndAlike (depth : Nat) (outcomes : Watch → Outcome α) : Prop
  | given (value : α) (later : ParseState) (left : later.depth = depth)
      (same : ∀ watch, outcomes watch = .ok value later)
  | failed (error : AnalysisError) (stopped : ParseState) (levelLeft : error.isTooDeep = false)
      (left : stopped.depth = depth) (same : ∀ watch, outcomes watch = .error error stopped)
  | refused (refusal : Refusal) (stopped : ParseState)
      (counted : stopped.depth = depth + refusal.levels)
      (same : ∀ watch,
        outcomes watch = .error (watch.refused refusal stopped.current.span) stopped)

def Uniform (steps : Watch → Parse α) : Prop :=
  ∀ state, EndAlike state.depth fun watch => (steps watch).run state

/-- If the reader itself takes tokens, so does every watched one. -/
theorem Uniform.progresses {steps : Watch → Parse α} (uniform : Uniform steps)
    (progresses : Progresses (steps idle)) (watch : Watch) : Progresses (steps watch) := by
  intro state value later closed given
  apply progresses closed
  unfold Gives at given ⊢
  cases uniform state with
  | given result done left same => exact (same idle).trans ((same watch).symm.trans given)
  | failed error stopped levelLeft left same => cases (same watch).symm.trans given
  | refused refusal stopped counted same => cases (same watch).symm.trans given

theorem uniform_compositional : CompositionalFamily @Uniform where
  pure value state := .given value state rfl fun _ => rfl
  bind {_ _ steps next} first rest := by
    intro state
    simp only [EStateM.run_bind]
    cases first state with
    | given value between left same =>
        simp only [same]
        rw [← left]
        exact rest value between
    | failed error stopped levelLeft left same =>
        exact .failed error stopped levelLeft left fun watch => by rw [same]
    | refused refusal stopped counted same =>
        exact .refused refusal stopped counted fun watch => by rw [same]
  current {_ next} each := by
    intro state
    obtain uniform | ⟨error, _, levelLeft, rejects⟩ := each state.current
    · exact uniform state
    · refine .failed error state levelLeft rfl fun watch => ?_
      have rejected : next watch state.current = throw error := rejects watch
      change (next watch state.current).run state = _
      rw [rejected]
      rfl
  advance state := .given _ _ state.advance_depth fun _ => rfl
  previous state := .given _ state rfl fun _ => rfl
  many each _ _ := fun state => each state.rest state

/-! ### Entering and leaving -/

theorem run_enter {watch : Watch} {refusal : Refusal} {state : ParseState}
    (fits : state.depth < maxDepth) : (watch.enter refusal).run state = .ok () state.entered :=
  if_pos fits

theorem run_enter_refused {watch : Watch} {refusal : Refusal} {state : ParseState}
    (full : ¬state.depth < maxDepth) : (watch.enter refusal).run state =
      .error (watch.refused refusal state.current.span) state.entered :=
  if_neg full

/-- As many levels as are counted can be left. -/
theorem run_leave {watch : Watch} {levels : Nat} {state : ParseState}
    (enough : levels ≤ state.depth) : (watch.leave levels).run state = .ok () (state.leave levels) :=
  if_pos enough

theorem run_nested {watch : Watch} {refusal : Refusal} {step : Parse α} {state : ParseState}
    (fits : state.depth < maxDepth) (enough : 1 ≤ (Outcome.state (step.run state.entered)).depth) :
    (watch.nested refusal step).run state =
      Outcome.mapState (·.leave 1) (step.run state.entered) := by
  unfold EStateM.run nested
  rw [show watch.enter refusal state = .ok () state.entered from run_enter fits]
  dsimp only
  unfold EStateM.run at enough
  cases outcome : step state.entered with
  | ok value later =>
      have enough : 1 ≤ later.depth := by rwa [outcome] at enough
      change (watch.leave 1 >>= fun _ => pure value).run later = _
      rw [EStateM.run_bind, run_leave enough]
      rfl
  | error error stopped =>
      have enough : 1 ≤ stopped.depth := by rwa [outcome] at enough
      change (watch.leave 1 >>= fun _ => throw error).run stopped = _
      rw [EStateM.run_bind, run_leave enough]
      rfl

theorem run_nested_refused {watch : Watch} {refusal : Refusal} {step : Parse α} {state : ParseState}
    (full : ¬state.depth < maxDepth) : (watch.nested refusal step).run state =
      .error (watch.refused refusal state.current.span) state.entered := by
  unfold EStateM.run nested
  rw [show watch.enter refusal state = _ from run_enter_refused full]

/-- What is done one level further in leaves a level to leave. -/
theorem Uniform.nested {steps : Watch → Parse α} (inner : Uniform steps) {refusal : Refusal}
    (single : refusal.levels = 1) : Uniform fun watch => watch.nested refusal (steps watch) := by
  intro state
  by_cases fits : state.depth < maxDepth
  · cases inner state.entered with
    | given value later left same =>
        rw [ParseState.entered_depth] at left
        have enough : 1 ≤ later.depth := by omega
        refine .given value (later.leave 1) (by rw [ParseState.leave_depth]; omega) fun watch => ?_
        rw [run_nested fits (by rw [same]; exact enough), same]
        rfl
    | failed error stopped levelLeft left same =>
        rw [ParseState.entered_depth] at left
        have enough : 1 ≤ stopped.depth := by omega
        refine .failed error (stopped.leave 1) levelLeft (by rw [ParseState.leave_depth]; omega)
          fun watch => ?_
        rw [run_nested fits (by rw [same]; exact enough), same]
        rfl
    | refused other stopped counted same =>
        rw [ParseState.entered_depth] at counted
        have enough : 1 ≤ stopped.depth := by omega
        refine .refused other (stopped.leave 1) (by rw [ParseState.leave_depth]; omega)
          fun watch => ?_
        rw [run_nested fits (by rw [same]; exact enough), same]
        rfl
  · exact .refused refusal state.entered (by rw [single]; rfl) fun watch => run_nested_refused fits

/-! ### Operators in front of an operand -/

inductive CountAlike (counted depth : Nat) (outcomes : Watch → Outcome (List (UnaryOp × Span))) :
    Prop
  | given (run : List (UnaryOp × Span)) (later : ParseState)
      (entered : later.depth = depth + run.length)
      (same : ∀ watch, outcomes watch = .ok run later)
  | refused (further : Nat) (stopped : ParseState) (entered : stopped.depth = depth + (further + 1))
      (same : ∀ watch, outcomes watch =
        .error (watch.refused (.operator (counted + further)) stopped.current.span) stopped)

section OperatorRuns

variable {watch : Watch} {state : ParseState} {counted levels : Nat} {op : UnaryOp}

theorem run_operatorRun_none (noOperator : state.current.kind.unaryOp? = none) :
    (watch.operatorRun counted levels).run state = .ok [] state := by
  cases levels <;> rw [operatorRun, run_look, noOperator] <;> rfl

variable (isOperator : state.current.kind.unaryOp? = some op)

include isOperator

theorem run_operatorRun_zero : (watch.operatorRun counted 0).run state =
    .error (watch.refused (.operator counted) state.current.span) state.entered := by
  rw [operatorRun, run_look, isOperator]
  rfl

theorem run_operatorRun_refused (full : ¬state.depth < maxDepth) :
    (watch.operatorRun counted (levels + 1)).run state =
      .error (watch.refused (.operator counted) state.current.span) state.entered := by
  rw [operatorRun, run_look, isOperator]
  dsimp only
  rw [EStateM.run_bind, run_enter_refused full]

theorem run_operatorRun_succ (fits : state.depth < maxDepth) :
    (watch.operatorRun counted (levels + 1)).run state =
      EStateM.run (watch.operatorRun (counted + 1) levels >>= fun inner =>
        pure ((op, state.current.span) :: inner)) state.entered.advance := by
  rw [operatorRun, run_look, isOperator]
  dsimp only
  rw [EStateM.run_bind, run_enter fits]
  rfl

end OperatorRuns

theorem operatorRun_countAlike (counted levels : Nat) (state : ParseState) :
    CountAlike counted state.depth fun watch => (watch.operatorRun counted levels).run state := by
  induction levels generalizing counted state with
  | zero =>
      cases next : state.current.kind.unaryOp? with
      | none => exact .given [] state rfl fun watch => run_operatorRun_none next
      | some op => exact .refused 0 state.entered rfl fun watch => run_operatorRun_zero next
  | succ levels inductionHypothesis =>
      cases next : state.current.kind.unaryOp? with
      | none => exact .given [] state rfl fun watch => run_operatorRun_none next
      | some op =>
          by_cases fits : state.depth < maxDepth
          · have depth : state.entered.advance.depth = state.depth + 1 :=
              state.entered.advance_depth
            cases inductionHypothesis (counted + 1) state.entered.advance with
            | given run later entered same =>
                refine .given ((op, state.current.span) :: run) later ?_ fun watch => ?_
                · rw [List.length_cons]
                  omega
                · rw [run_operatorRun_succ next fits, EStateM.run_bind, same]
                  rfl
            | refused further stopped entered same =>
                refine .refused (further + 1) stopped (by omega) fun watch => ?_
                rw [run_operatorRun_succ next fits, EStateM.run_bind, same,
                  Nat.add_right_comm counted 1 further]
                rfl
          · exact .refused 0 state.entered rfl fun watch => run_operatorRun_refused next fits

/-- As many levels are left behind a run of operators as were entered for it. -/
theorem Uniform.unary {operand : Watch → Parse Expression} (inner : Uniform operand) :
    Uniform fun watch => watch.unary (operand watch) := by
  intro state
  unfold Watch.unary
  simp only [@EStateM.run_bind _ _ (List (UnaryOp × Span)), @EStateM.run_bind _ _ Unit]
  cases operatorRun_countAlike 0 maxDepth state with
  | given run between entered same =>
      have enough : run.length ≤ between.depth := by omega
      have depth : (between.leave run.length).depth = state.depth := by
        rw [ParseState.leave_depth, entered, Nat.add_sub_cancel]
      simp only [same, run_leave enough]
      rw [← depth]
      exact uniform_compositional.bind inner (fun _ => uniform_compositional.pure _) _
  | refused further stopped entered same =>
      refine .refused (.operator further) stopped entered fun watch => ?_
      rw [same, Nat.zero_add]

/-! ### The reader -/

theorem uniform_refuse {refusal : Refusal} (single : refusal.levels = 1) :
    Uniform fun watch => (watch.refuse refusal : Parse α) := fun state =>
  .refused refusal state.entered (by rw [single]; rfl) fun _ => rfl

theorem uniform_countOperator : Uniform fun _ => countOperator := by
  intro state
  by_cases fits : state.operators < maxOperators
  · exact .given () { state with operators := state.operators + 1 } rfl fun _ => if_pos fits
  · exact .failed (.expressionTooLong maxOperators state.current.span)
      { state with operators := state.operators + 1 } rfl rfl fun _ => if_neg fits

theorem uniform_tooLong : Uniform fun _ => (tooLong : Parse α) := fun state =>
  .failed (.expressionTooLong maxOperators state.current.span)
    { state with operators := state.operators + 1 } rfl rfl fun _ => rfl

theorem uniform_nestedExpression {refusal : Refusal} (single : refusal.levels = 1) (levels : Nat) :
    Uniform fun watch => watch.nestedExpression refusal levels := by
  induction levels generalizing refusal with
  | zero => exact uniform_refuse single
  | succ levels inductionHypothesis =>
      have inner : Uniform fun watch => watch.nestedExpression .parentheses levels :=
        inductionHypothesis rfl
      exact Uniform.nested (uniform_compositional.binaries uniform_countOperator uniform_tooLong
        (Uniform.unary (uniform_compositional.primary inner)) Precedence.all) single

theorem uniform_expression (levels : Nat) : Uniform fun watch => watch.expression levels :=
  uniform_compositional.bind (fun state => .given () state.uncounted rfl fun _ => rfl) fun _ =>
    uniform_nestedExpression rfl levels

theorem uniform_statement (levels : Nat) : Uniform fun watch => watch.statement levels := by
  induction levels with
  | zero => exact uniform_refuse rfl
  | succ levels inductionHypothesis =>
      have progresses (watch : Watch) : Progresses (watch.statement levels) :=
        inductionHypothesis.progresses (idle_statement levels ▸ statement_progresses levels) watch
      exact Uniform.nested (uniform_compositional.statementBody (uniform_expression levels)
        inductionHypothesis progresses) rfl

theorem uniform_outerStatement : Uniform fun watch => watch.outerStatement := by
  apply uniform_compositional.current
  intro token
  split
  · exact .inl (uniform_statement maxDepth)
  · exact .inr ⟨_, .trailingInput, rfl, fun _ => rfl⟩

theorem uniform_program : Uniform fun watch => watch.program :=
  uniform_compositional.bind
    (uniform_compositional.many (uniform_compositional.repeatWhile uniform_outerStatement)
      (uniform_outerStatement.progresses (idle_outerStatement ▸ outerStatement_progresses))
      fun token ended => by rw [ended]; rfl) fun _ =>
    uniform_compositional.pure _

end Watch

/-! ### Calls -/

/-- Some watch tells any two refusals apart. -/
theorem Refusal.eq_of_told {first second : Refusal} (span : Span)
    (told : ∀ watch : Watch, watch.refused first span = watch.refused second span) :
    first = second := by
  have same := told ⟨fun refusal _ => if refusal = first then .emptySource else
    .nestingTooDeep maxDepth .origin, Parse.leave⟩
  by_cases equal : second = first
  · exact equal.symm
  · simp [equal] at same

namespace ParseState

/-- At any call of a reader, also of one that was called before, levels are never left that are not
counted: what a watch would do then makes no difference. A call that gives a program or fails for another
reason than a level that is refused ends on the level that it began on, whoever watches. And if a level
is refused, there is just one refusal that every watch is told, and as many levels stay counted as it
says: one for a statement, a complete expression or parentheses, and for an operator one more than were
counted in front of it in its run. -/
theorem afterCalls_levels (tokens : List Token) (calls : Nat) :
    let state := (ofTokens tokens).afterCalls calls
    (∀ overdrawn, state.watchedProgram { Watch.idle with overdrawn } = state.program) ∧
    ((∀ limit place, state.program.1 ≠ .error (.nestingTooDeep limit place)) →
      state.program.2.depth = state.depth ∧
        ∀ watch, state.watchedProgram watch = state.program) ∧
    ∀ limit place, state.program.1 = .error (.nestingTooDeep limit place) →
      ∃! refusal : Refusal, state.program.2.depth = state.depth + refusal.levels ∧
        ∀ watch, state.watchedProgram watch =
          (.error (watch.refused refusal state.program.2.current.span), state.program.2) := by
  intro state
  have own := state.watchedProgram_idle
  cases Watch.uniform_program state with
  | given program later left same =>
      have all (watch : Watch) : state.watchedProgram watch = (.ok program, later) := by
        rw [watchedProgram, same]
        rfl
      rw [← own, all]
      refine ⟨fun _ => all _, fun _ => ⟨left, all⟩, fun _ _ tooDeep => ?_⟩
      cases tooDeep
  | failed error stopped levelLeft left same =>
      have all (watch : Watch) : state.watchedProgram watch = (.error error, stopped) := by
        rw [watchedProgram, same]
        rfl
      rw [← own, all]
      refine ⟨fun _ => all _, fun _ => ⟨left, all⟩, fun _ _ tooDeep => ?_⟩
      cases tooDeep
      cases levelLeft
  | refused refusal stopped counted same =>
      have all (watch : Watch) : state.watchedProgram watch =
          (.error (watch.refused refusal stopped.current.span), stopped) := by
        rw [watchedProgram, same]
        rfl
      rw [← own, all]
      refine ⟨fun _ => all _, fun levelLeft => absurd rfl (levelLeft maxDepth _), fun _ _ _ => ?_⟩
      refine ⟨refusal, ⟨counted, all⟩, fun other ⟨_, told⟩ => ?_⟩
      refine Refusal.eq_of_told stopped.current.span fun watch => ?_
      have same := congrArg Prod.fst ((told watch).symm.trans (all watch))
      exact Except.error.inj same

theorem eq_error_of_reported {result : Except AnalysisError Program} {error : AnalysisError}
    (reported : (match result with | .error error => some error | .ok _ => none) = some error) :
    result = .error error := by
  cases result with
  | ok program => cases reported
  | error other =>
      cases reported
      rfl

/-- Behind 126 operators in front of an operand, which are as many as there are levels for in an
expression of a statement, one more is refused. Its level stays counted with those of the others, and the
next call, which fails at the same place, keeps them. -/
theorem afterCalls_levels_operators :
    let token (kind : Token.Kind) : Token := ⟨kind, "", .origin⟩
    let tokens := token (.identifier "x") :: token (.symbol .assign) ::
      List.replicate 127 (token (.symbol .minus))
    let state := ofTokens tokens
    state.program.1 = .error (.nestingTooDeep maxDepth .origin) ∧
      (∃! refusal : Refusal, state.program.2.depth = state.depth + refusal.levels ∧
        ∀ watch, state.watchedProgram watch =
          (.error (watch.refused refusal state.program.2.current.span), state.program.2)) ∧
      state.program.2.depth = Refusal.levels (.operator 126) ∧
      (state.afterCalls 1).program.1 =
        .error (.trailingInput (token (.symbol .minus)).description .origin) ∧
      (state.afterCalls 2).depth = Refusal.levels (.operator 126) := by
  intro token tokens state
  have refused : state.program.1 = .error (.nestingTooDeep maxDepth .origin) :=
    eq_error_of_reported (by decide +kernel)
  have counted : state.program.2.depth = Refusal.levels (.operator 126) := by decide +kernel
  have again : (state.afterCalls 1).program.1 =
      .error (.trailingInput (token (.symbol .minus)).description .origin) :=
    eq_error_of_reported (by decide +kernel)
  have levelLeft : ∀ limit place,
      (state.afterCalls 1).program.1 ≠ .error (.nestingTooDeep limit place) := by
    intro limit place tooDeep
    cases again.symm.trans tooDeep
  -- the calls are not evaluated any more
  clear_value tokens
  have kept : (state.afterCalls 2).depth = state.program.2.depth :=
    ((afterCalls_levels tokens 1).2.1 levelLeft).1
  exact ⟨refused, (afterCalls_levels tokens 0).2.2 _ _ refused, counted, again,
    kept.trans counted⟩

end ParseState

end StagedAnalysis
