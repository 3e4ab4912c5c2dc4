import StagedAnalysis.Parsing.Statement
import StagedAnalysis.Proofs.Layout.Relocation
/-!
Reading does not depend on places.

A step that is made behind relocated values, in a relocated state, does what the step does where
nothing is moved: it gives the relocated value or the relocated fault, and stops in the relocated
state. Each building block keeps this, and so does everything that is made of such blocks; ranges
are only ever merged and handed on.
-/
namespace StagedAnalysis

variable {relocation : Relocation}

/-! ### States -/

theorem Token.relocate_kind (token : Token) : (token.relocate relocation).kind = token.kind := rfl

namespace ParseState

theorem current_relocate (state : ParseState) :
    (state.relocate relocation).current = state.current.relocate relocation := by
  obtain ⟨rest, previous, depth, operators, closing⟩ := state
  cases rest <;> rfl

theorem advance_relocate (state : ParseState) :
    (state.relocate relocation).advance = state.advance.relocate relocation := by
  obtain ⟨rest, previous, depth, operators, closing⟩ := state
  cases rest with
  | nil => rfl
  | cons token rest =>
      have kept : (token.relocate relocation).isEnd = token.isEnd := rfl
      simp only [advance, relocate, List.map_cons, kept]
      cases token.isEnd <;> rfl

end ParseState

namespace Parse

variable {α β : Type}

def placed (relocation : Relocation) (place : α → α) :
    EStateM.Result AnalysisError ParseState α → EStateM.Result AnalysisError ParseState α
  | .ok value state => .ok (place value) (state.relocate relocation)
  | .error error state => .error (error.relocate relocation) (state.relocate relocation)

/-- The second step does in a relocated state what the first one does in the state itself. -/
def Tracks (relocation : Relocation) (place : α → α) (first second : Parse α) : Prop :=
  ∀ state : ParseState,
    second.run (state.relocate relocation) = placed relocation place (first.run state)

abbrev Placeless (relocation : Relocation) (place : α → α) (step : Parse α) : Prop :=
  Tracks relocation place step step

variable {place : α → α} {placeNext : β → β}

/-! ### Building blocks -/

theorem tracks_pure {first second : α} (same : second = place first) :
    Tracks relocation place (pure first) (pure second) := by
  intro state
  rw [same]
  rfl

theorem Tracks.bind {first second : Parse α} {next nextSecond : α → Parse β}
    (tracks : Tracks relocation place first second)
    (rest : ∀ value, Tracks relocation placeNext (next value) (nextSecond (place value))) :
    Tracks relocation placeNext (first >>= next) (second >>= nextSecond) := by
  intro state
  rw [EStateM.run_bind, EStateM.run_bind, tracks state]
  cases first.run state with
  | ok value between => exact rest value between
  | error error between => rfl

theorem Tracks.ite {condition : Prop} [Decidable condition]
    {first second other otherSecond : Parse α}
    (tracks : Tracks relocation place first second)
    (otherTracks : Tracks relocation place other otherSecond) :
    Tracks relocation place (if condition then first else other)
      (if condition then second else otherSecond) := by
  split
  · exact tracks
  · exact otherTracks

theorem tracks_throw {error : AnalysisError} :
    Tracks relocation place (throw error) (throw (error.relocate relocation)) := by
  intro state
  rfl

theorem placeless_current : Placeless relocation (·.relocate relocation) current := by
  intro state
  exact congrArg (EStateM.Result.ok · _) state.current_relocate

theorem placeless_advance : Placeless relocation (·.relocate relocation) advance := by
  intro state
  simp only [EStateM.run, advance, ParseState.current_relocate, ParseState.advance_relocate]
  rfl

theorem placeless_previous : Placeless relocation relocation.move previous := by
  intro state
  rfl

/-- What is read from a token on gets the range from there up to the token taken last. -/
theorem tracks_range {build buildSecond : Span → α} (first : Token)
    (same : ∀ range, buildSecond (relocation.move range) = place (build range)) :
    Tracks relocation place (previous >>= fun last => pure (build (first.span.merge last)))
      (previous >>= fun last =>
        pure (buildSecond ((first.relocate relocation).span.merge last))) := by
  apply placeless_previous.bind
  intro last
  have range : (first.relocate relocation).span.merge (relocation.move last) =
      relocation.move (first.span.merge last) :=
    (relocation.move_merge first.span last).symm
  rw [range]
  exact tracks_pure (same _)

theorem placeless_unexpected (expected : String) :
    Placeless relocation place (unexpected expected) :=
  placeless_current.bind fun _ => tracks_throw

theorem placeless_expectAs (symbol : Symbol) (expected : String) :
    Placeless relocation (·.relocate relocation) (expectAs symbol expected) :=
  placeless_current.bind fun _ => placeless_advance.ite (placeless_unexpected expected)

theorem placeless_accept (kind : Token.Kind) : Placeless relocation id (accept kind) := by
  apply placeless_current.bind
  intro token
  apply Tracks.ite
  · exact placeless_advance.bind fun _ => tracks_pure rfl
  · exact tracks_pure rfl

theorem placeless_tooDeep : Placeless relocation place tooDeep := by
  intro state
  simp only [EStateM.run, tooDeep, ParseState.current_relocate]
  rfl

theorem placeless_tooLong : Placeless relocation place tooLong := by
  intro state
  simp only [EStateM.run, tooLong, ParseState.current_relocate]
  rfl

theorem placeless_enter : Placeless relocation id enter := by
  intro state
  rw [EStateM.run, EStateM.run, enter, enter]
  change (if state.depth < maxDepth then _ else _) = _
  split
  · rfl
  · exact placeless_tooDeep state

theorem placeless_leave (levels : Nat) : Placeless relocation id (leave levels) := by
  intro state
  rfl

theorem placeless_countOperator : Placeless relocation id countOperator := by
  intro state
  rw [EStateM.run, EStateM.run, countOperator, countOperator]
  change (if state.operators < maxOperators then _ else _) = _
  split
  · rfl
  · exact placeless_tooLong state

theorem placeless_resetOperators : Placeless relocation id resetOperators := by
  intro state
  rfl

theorem Placeless.nested {step : Parse α} (inner : Placeless relocation place step) :
    Placeless relocation place fun state => nested step state := by
  intro state
  have entered := @placeless_enter relocation state
  unfold EStateM.run at entered ⊢
  unfold Parse.nested
  dsimp only
  rw [entered]
  cases enter state with
  | error error refused => rfl
  | ok _ inside =>
      have given := inner inside
      unfold EStateM.run at given
      dsimp only [placed]
      rw [given]
      cases step inside <;> rfl

theorem Placeless.repeatWhile {goesOn : Token → Bool} {step : Parse α}
    (each : Placeless relocation place step)
    (blind : ∀ token, goesOn (token.relocate relocation) = goesOn token) (budget : List Token) :
    Tracks relocation (List.map place) (repeatWhile goesOn step budget)
      (repeatWhile goesOn step (budget.map (·.relocate relocation))) := by
  -- the tokens of the budget are only counted, so it may be moved like the state
  induction budget with
  | nil => exact tracks_pure rfl
  | cons token budget inductionHypothesis =>
      apply placeless_current.bind
      intro token
      rw [blind]
      apply Tracks.ite
      · exact each.bind fun _ => inductionHypothesis.bind fun _ => tracks_pure rfl
      · exact tracks_pure rfl

theorem Placeless.many {goesOn : Token → Bool} {step : Parse α}
    (each : Placeless relocation place step)
    (blind : ∀ token, goesOn (token.relocate relocation) = goesOn token) :
    Placeless relocation (List.map place) (many goesOn step) := by
  intro state
  exact each.repeatWhile blind state.rest state

/-! ### Expressions -/

theorem ofToken?_relocate (token : Token) :
    Expression.ofToken? (token.relocate relocation) =
      (Expression.ofToken? token).map (·.relocate relocation) := by
  obtain ⟨kind, lexeme, span⟩ := token
  cases kind with
  | keyword word => cases word <;> rfl
  | _ => rfl

theorem Placeless.primary {inner : Parse Expression}
    (innerPlaceless : Placeless relocation (·.relocate relocation) inner) :
    Placeless relocation (·.relocate relocation) (primary inner) := by
  apply placeless_current.bind
  intro token
  rw [ofToken?_relocate]
  cases Expression.ofToken? token with
  | some operand => exact placeless_advance.bind fun _ => tracks_pure rfl
  | none =>
      apply Tracks.ite
      · exact placeless_advance.bind fun _ => innerPlaceless.bind fun _ =>
          (placeless_expectAs .rightParen _).bind fun _ => tracks_pure rfl
      · exact tracks_throw

def placedRun (relocation : Relocation) (run : List (UnaryOp × Span)) : List (UnaryOp × Span) :=
  run.map fun entry => (entry.1, relocation.move entry.2)

theorem placeless_operatorRun (levels : Nat) :
    Placeless relocation (placedRun relocation) (operatorRun levels) := by
  induction levels with
  | zero =>
      apply placeless_current.bind
      intro token
      rw [Token.relocate_kind]
      cases token.kind.unaryOp? with
      | none => exact tracks_pure rfl
      | some op => exact placeless_tooDeep
  | succ levels inductionHypothesis =>
      apply placeless_current.bind
      intro token
      rw [Token.relocate_kind]
      cases token.kind.unaryOp? with
      | none => exact tracks_pure rfl
      | some op =>
          exact placeless_enter.bind fun _ => placeless_advance.bind fun _ =>
            inductionHypothesis.bind fun _ => tracks_pure rfl

theorem foldr_apply_relocate (run : List (UnaryOp × Span)) (innermost : Expression) :
    (placedRun relocation run).foldr (fun entry inner => inner.apply entry.1 entry.2)
        (innermost.relocate relocation) =
      (run.foldr (fun entry inner => inner.apply entry.1 entry.2) innermost).relocate
        relocation := by
  induction run with
  | nil => rfl
  | cons entry run inductionHypothesis =>
      rw [placedRun, List.map_cons, List.foldr_cons, List.foldr_cons, ← placedRun,
        inductionHypothesis]
      simp only [Expression.apply, Expression.relocate, Expression.relocate_span,
        relocation.move_merge]

theorem Placeless.unary {operand : Parse Expression}
    (operandPlaceless : Placeless relocation (·.relocate relocation) operand) :
    Placeless relocation (·.relocate relocation) (unary operand) := by
  apply (placeless_operatorRun maxDepth).bind
  intro run
  have same : (placedRun relocation run).length = run.length := List.length_map _
  rw [same]
  exact (placeless_leave _).bind fun _ => operandPlaceless.bind fun innermost =>
    tracks_pure (foldr_apply_relocate run innermost)

theorem join_relocate (op : BinaryOp) (left right : Expression) :
    Expression.join op (left.relocate relocation) (right.relocate relocation) =
      (Expression.join op left right).relocate relocation := by
  simp only [Expression.join, Expression.relocate, Expression.relocate_span,
    relocation.move_merge]

theorem operatorAt_relocate (precedence : Precedence) (token : Token) :
    operatorAt precedence (token.relocate relocation) = operatorAt precedence token :=
  rfl

theorem Placeless.chain {operand : Parse Expression}
    (operandPlaceless : Placeless relocation (·.relocate relocation) operand)
    (precedence : Precedence) (budget : Nat) (left : Expression) :
    Tracks relocation (·.relocate relocation) (chain operand precedence budget left)
      (chain operand precedence budget (left.relocate relocation)) := by
  -- the left operand grows from one round to the next, and so does its range
  induction budget generalizing left with
  | zero =>
      apply placeless_current.bind
      intro token
      rw [operatorAt_relocate]
      cases operatorAt precedence token with
      | none => exact tracks_pure rfl
      | some op => exact placeless_tooLong
  | succ budget inductionHypothesis =>
      apply placeless_current.bind
      intro token
      rw [operatorAt_relocate]
      cases operatorAt precedence token with
      | none => exact tracks_pure rfl
      | some op =>
          refine placeless_countOperator.bind fun _ => placeless_advance.bind fun _ =>
            operandPlaceless.bind fun right => ?_
          rw [join_relocate]
          exact inductionHypothesis _

theorem Placeless.binary {operand : Parse Expression}
    (operandPlaceless : Placeless relocation (·.relocate relocation) operand)
    (precedence : Precedence) :
    Placeless relocation (·.relocate relocation) (binary operand precedence) :=
  operandPlaceless.bind fun left => operandPlaceless.chain precedence maxOperators left

theorem Placeless.expressionBody {inner : Parse Expression}
    (innerPlaceless : Placeless relocation (·.relocate relocation) inner) :
    Placeless relocation (·.relocate relocation) (expressionBody inner) := by
  have each (precedences : List Precedence) : Placeless relocation (·.relocate relocation)
      (precedences.foldr (fun precedence tighter => Parse.binary tighter precedence)
        (Parse.unary (Parse.primary inner))) := by
    induction precedences with
    | nil => exact innerPlaceless.primary.unary
    | cons precedence precedences inductionHypothesis =>
        exact inductionHypothesis.binary precedence
  exact each Precedence.all

theorem placeless_nestedExpression (levels : Nat) :
    Placeless relocation (·.relocate relocation) (nestedExpression levels) := by
  induction levels with
  | zero => exact placeless_tooDeep
  | succ levels inductionHypothesis => exact inductionHypothesis.expressionBody.nested

theorem placeless_expression (levels : Nat) :
    Placeless relocation (·.relocate relocation) (expression levels) :=
  placeless_resetOperators.bind fun _ => placeless_nestedExpression levels

/-! ### Statements -/

theorem placeless_identifier : Placeless relocation (·.relocate relocation) identifier := by
  apply placeless_current.bind
  rintro ⟨kind, lexeme, span⟩
  cases kind with
  | identifier name => exact placeless_advance.bind fun _ => tracks_pure rfl
  | _ => exact tracks_throw

section Bodies

variable {statement : Parse Statement} {expression : Parse Expression}

theorem Placeless.declaration
    (expressionPlaceless : Placeless relocation (·.relocate relocation) expression) (ty : Ty) :
    Placeless relocation (·.relocate relocation) (declaration ty expression) := by
  refine placeless_advance.bind fun first => placeless_identifier.bind fun name =>
    (placeless_accept _).bind fun initialized => ?_
  apply Tracks.ite
  · exact expressionPlaceless.bind fun _ => (placeless_expectAs _ _).bind fun _ =>
      tracks_range first fun _ => rfl
  · exact (placeless_expectAs _ _).bind fun _ => tracks_range first fun _ => rfl

theorem Placeless.assignment
    (expressionPlaceless : Placeless relocation (·.relocate relocation) expression) :
    Placeless relocation (·.relocate relocation) (assignment expression) := by
  refine placeless_identifier.bind fun target => placeless_current.bind fun token => ?_
  rw [Token.relocate_kind]
  cases token.kind.assignOp? with
  | some op =>
      refine placeless_advance.bind fun _ => expressionPlaceless.bind fun value =>
        tracks_pure ?_
      simp only [Assignment.relocate, relocation.move_merge, Expression.relocate_span,
        Identifier.relocate]
  | none => exact placeless_unexpected _

theorem Placeless.parenthesized
    (expressionPlaceless : Placeless relocation (·.relocate relocation) expression) :
    Placeless relocation (·.relocate relocation) (parenthesized expression) :=
  (placeless_expectAs _ _).bind fun _ => expressionPlaceless.bind fun _ =>
    (placeless_expectAs _ _).bind fun _ => tracks_pure rfl

theorem Placeless.conditional
    (statementPlaceless : Placeless relocation (·.relocate relocation) statement)
    (expressionPlaceless : Placeless relocation (·.relocate relocation) expression) :
    Placeless relocation (·.relocate relocation) (conditional statement expression) := by
  refine placeless_advance.bind fun first => expressionPlaceless.parenthesized.bind fun condition =>
    statementPlaceless.bind fun branch => (placeless_accept _).bind fun more => ?_
  apply Tracks.ite
  · exact statementPlaceless.bind fun otherwise => tracks_range first fun _ => rfl
  · exact tracks_range first fun _ => rfl

theorem Placeless.whileLoop
    (statementPlaceless : Placeless relocation (·.relocate relocation) statement)
    (expressionPlaceless : Placeless relocation (·.relocate relocation) expression) :
    Placeless relocation (·.relocate relocation) (whileLoop statement expression) :=
  placeless_advance.bind fun first => expressionPlaceless.parenthesized.bind fun _ =>
    statementPlaceless.bind fun _ => tracks_range first fun _ => rfl

theorem Placeless.loopStart
    (expressionPlaceless : Placeless relocation (·.relocate relocation) expression) :
    Placeless relocation (·.relocate relocation) (loopStart expression) := by
  apply placeless_current.bind
  rintro ⟨kind, lexeme, span⟩
  dsimp only [Token.relocate]
  cases kind.type? with
  | some ty => exact (expressionPlaceless.declaration ty).bind fun _ => tracks_pure rfl
  | none =>
      dsimp only
      split
      · exact placeless_advance.bind fun _ => tracks_pure rfl
      · exact expressionPlaceless.assignment.bind fun _ =>
          (placeless_expectAs _ _).bind fun _ => tracks_pure rfl
      · exact placeless_unexpected _

theorem Placeless.unlessAt {step : Parse α} (stepPlaceless : Placeless relocation place step)
    (symbol : Symbol) : Placeless relocation (Option.map place) (unlessAt symbol step) := by
  apply placeless_current.bind
  intro token
  apply Tracks.ite
  · exact tracks_pure rfl
  · exact stepPlaceless.bind fun _ => tracks_pure rfl

theorem Placeless.forLoop
    (statementPlaceless : Placeless relocation (·.relocate relocation) statement)
    (expressionPlaceless : Placeless relocation (·.relocate relocation) expression) :
    Placeless relocation (·.relocate relocation) (forLoop statement expression) :=
  placeless_advance.bind fun first => (placeless_expectAs _ _).bind fun _ =>
    expressionPlaceless.loopStart.bind fun _ =>
      (expressionPlaceless.unlessAt _).bind fun _ => (placeless_expectAs _ _).bind fun _ =>
        (expressionPlaceless.assignment.unlessAt _).bind fun _ =>
          (placeless_expectAs _ _).bind fun _ => statementPlaceless.bind fun _ =>
            tracks_range first fun _ => rfl

theorem Placeless.print
    (expressionPlaceless : Placeless relocation (·.relocate relocation) expression) :
    Placeless relocation (·.relocate relocation) (print expression) :=
  placeless_advance.bind fun first => expressionPlaceless.parenthesized.bind fun _ =>
    (placeless_expectAs _ _).bind fun _ => tracks_range first fun _ => rfl

theorem Placeless.block
    (statementPlaceless : Placeless relocation (·.relocate relocation) statement) :
    Placeless relocation (·.relocate relocation) (block statement) := by
  refine (placeless_expectAs _ _).bind fun first =>
    (statementPlaceless.many fun _ => rfl).bind fun body =>
      (placeless_expectAs _ _).bind fun _ => ?_
  apply tracks_range first
  intro range
  rw [← Statement.relocateAll_eq_map, Statement.relocate]

theorem Placeless.statementBody
    (statementPlaceless : Placeless relocation (·.relocate relocation) statement)
    (expressionPlaceless : Placeless relocation (·.relocate relocation) expression) :
    Placeless relocation (·.relocate relocation) (statementBody statement expression) := by
  apply placeless_current.bind
  rintro ⟨kind, lexeme, span⟩
  dsimp only [Token.relocate]
  split
  · rename_i word
    cases word.type? with
    | some ty => exact (expressionPlaceless.declaration ty).bind fun _ => tracks_pure rfl
    | none =>
        dsimp only
        split
        · exact statementPlaceless.conditional expressionPlaceless
        · exact statementPlaceless.whileLoop expressionPlaceless
        · exact statementPlaceless.forLoop expressionPlaceless
        · exact expressionPlaceless.print
        · exact placeless_unexpected _
  · exact expressionPlaceless.assignment.bind fun _ =>
      (placeless_expectAs _ _).bind fun _ => tracks_pure rfl
  · exact statementPlaceless.block
  · exact placeless_advance.bind fun _ => tracks_pure rfl
  · exact placeless_unexpected _

end Bodies

theorem placeless_statement (levels : Nat) :
    Placeless relocation (·.relocate relocation) (statement levels) := by
  induction levels with
  | zero => exact placeless_tooDeep
  | succ levels inductionHypothesis =>
      exact (inductionHypothesis.statementBody (placeless_expression levels)).nested

theorem placeless_outerStatement :
    Placeless relocation (·.relocate relocation) outerStatement := by
  apply placeless_current.bind
  intro token
  apply Tracks.ite
  · exact placeless_statement maxDepth
  · exact tracks_throw

theorem placeless_program : Placeless relocation (·.relocate relocation) program := by
  refine (placeless_outerStatement.many fun _ => rfl).bind fun statements => tracks_pure ?_
  rw [← Statement.relocateAll_eq_map, Program.relocate]

end Parse

/-- Reading a relocated state gives the relocated program or fault, and stops in the relocated
state. -/
theorem ParseState.program_relocate (state : ParseState) :
    (state.relocate relocation).program =
      ((state.program.1.map (·.relocate relocation)).mapError (·.relocate relocation),
        state.program.2.relocate relocation) := by
  have read := @Parse.placeless_program relocation state
  unfold EStateM.run at read
  rw [program, program, read]
  cases Parse.program state <;> rfl

/-- Tokens that differ in their places alone are read as programs, or refused with faults, that
differ in their places alone. -/
theorem Program.ofTokens_collapse {first second : List Token}
    (same : first.map (·.relocate .collapse) = second.map (·.relocate .collapse)) :
    ((ofTokens first).map (·.relocate .collapse)).mapError (·.relocate .collapse) =
      ((ofTokens second).map (·.relocate .collapse)).mapError (·.relocate .collapse) := by
  have start : (ParseState.ofTokens first).relocate .collapse =
      (ParseState.ofTokens second).relocate .collapse :=
    congrArg (fun rest => ParseState.mk rest .origin 0 0 (.closing .origin)) same
  have read := congrArg (fun state => state.program.1) start
  simp only [ParseState.program_relocate] at read
  exact read

end StagedAnalysis
