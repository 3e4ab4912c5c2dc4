import StagedAnalysis.Proofs.Ranges.Rows
import StagedAnalysis.Proofs.Reading.Outcomes
import StagedAnalysis.Proofs.Reading.Programs
/-!
What is read stands in the tokens that were moved over.

Along the reader, every step that gives a tree collects it: the tree stands in the tokens that the step
has moved over, and what was collected one behind the other stands in a row. The range of a statement
ends with the token taken last, which is the last one that was moved over.
-/
namespace StagedAnalysis

open Token (Kind)
open Node (Row Stands)
open Grammar (States StatesAll)

namespace ParseState

variable {state between later : ParseState} {taken others : List Token} {kind : Kind}
  {nodes more : List Node}

/-! ### Moving over tokens -/

structure Passes (taken : List Token) (state later : ParseState) : Prop
    extends Moves taken state later where
  previous : later.previous = (taken.getLast?.map (·.span)).getD state.previous

theorem Passes.refl (state : ParseState) : Passes [] state state :=
  ⟨.refl state, rfl⟩

theorem Passes.trans (first : Passes taken state between) (rest : Passes others between later) :
    Passes (taken ++ others) state later := by
  refine ⟨first.toMoves.trans rest.toMoves, ?_⟩
  rw [rest.previous, first.previous, List.getLast?_append]
  cases others.getLast? <;> rfl

/-- No counter counts. -/
theorem Passes.congr {start stop : ParseState} (passes : Passes taken state later)
    (rest : start.rest = state.rest) (closing : start.closing = state.closing)
    (previous : start.previous = state.previous) (stopRest : stop.rest = later.rest)
    (stopClosing : stop.closing = later.closing) (stopPrevious : stop.previous = later.previous) :
    Passes taken start stop where
  rest := by rw [rest, stopRest, passes.rest]
  goesOn := passes.goesOn
  closing := by rw [closing, stopClosing, passes.closing]
  previous := by rw [previous, stopPrevious, passes.previous]

theorem passes_advance (closed : state.closing.isEnd = true) (seen : state.current.kind = kind)
    (goesOn : kind ≠ .endOfInput) : Passes [state.current] state state.advance := by
  have moves := moves_advance closed seen goesOn
  refine ⟨moves, ?_⟩
  have inside := moves.goesOn _ List.mem_cons_self
  rcases state with ⟨rest, previous, depth, operators, closing⟩
  cases rest with
  | nil =>
      have ended : true = false := closed.symm.trans inside
      cases ended
  | cons token rest =>
      have tokenInside : token.isEnd = false := inside
      simp [advance, current, tokenInside]

/-! ### Collecting nodes -/

/-- The nodes stand, one behind the other, in the tokens between the states. -/
def Collects (nodes : List Node) (state later : ParseState) : Prop :=
  ∃ taken, Passes taken state later ∧ Row Stands taken nodes

theorem Passes.collects (passes : Passes taken state later) : Collects [] state later :=
  ⟨taken, passes, .nil taken⟩

theorem Collects.trans (first : Collects nodes state between) (rest : Collects more between later) :
    Collects (nodes ++ more) state later := by
  obtain ⟨taken, passes, row⟩ := first
  obtain ⟨others, restPasses, restRow⟩ := rest
  exact ⟨taken ++ others, passes.trans restPasses, row.append restRow⟩

theorem Collects.closed (collects : Collects nodes state later) (closed : state.closing.isEnd = true) :
    later.closing.isEnd = true := by
  obtain ⟨taken, passes, _⟩ := collects
  exact passes.closing ▸ closed

/-- No counter counts. -/
theorem Collects.congr {start stop : ParseState} (collects : Collects nodes state later)
    (rest : start.rest = state.rest) (closing : start.closing = state.closing)
    (previous : start.previous = state.previous) (stopRest : stop.rest = later.rest)
    (stopClosing : stop.closing = later.closing) (stopPrevious : stop.previous = later.previous) :
    Collects nodes start stop := by
  obtain ⟨taken, passes, row⟩ := collects
  exact ⟨taken, passes.congr rest closing previous stopRest stopClosing stopPrevious, row⟩

/-- A token that belongs to none of the nodes may follow. -/
theorem Collects.advance (collects : Collects nodes state between)
    (closed : state.closing.isEnd = true) (seen : between.current.kind = kind)
    (goesOn : kind ≠ .endOfInput) : Collects nodes state between.advance := by
  have rest := (passes_advance (collects.closed closed) seen goesOn).collects
  have whole := collects.trans rest
  rwa [List.append_nil] at whole

/-- A node that is collected stands in some of the tokens between the states. -/
theorem Collects.single {node : Node} (collects : Collects [node] state later) :
    ∃ opens part closes, Passes (opens ++ (part ++ closes)) state later ∧ Stands part node := by
  obtain ⟨taken, passes, row⟩ := collects
  obtain ⟨opens, part, closes, rfl, stands⟩ := row.of_single
  exact ⟨opens, part, closes, passes, stands⟩

theorem Passes.collects_single {node : Node} {opens part closes : List Token}
    (passes : Passes (opens ++ (part ++ closes)) state later) (stands : Stands part node) :
    Collects [node] state later :=
  ⟨_, passes, .single opens closes stands⟩

/-- Two nodes with a token between them may make up another one. -/
theorem Collects.combine {left right whole : Node} {start stop : ParseState} {sign : Token}
    (build : ∀ {first second : List Token} (gap : List Token), Stands first left →
      Stands second right → Stands (first ++ (gap ++ second)) whole)
    (leftCollects : Collects [left] start state) (passes : Passes [sign] state stop)
    (rightCollects : Collects [right] stop later) : Collects [whole] start later := by
  obtain ⟨opens, first, gap, leftPasses, leftStands⟩ := leftCollects.single
  obtain ⟨otherGap, second, closes, rightPasses, rightStands⟩ := rightCollects.single
  have stands := build (gap ++ ([sign] ++ otherGap)) leftStands rightStands
  have whole := leftPasses.trans (passes.trans rightPasses)
  have parted : Passes (opens ++ ((first ++ ((gap ++ ([sign] ++ otherGap)) ++ second)) ++ closes))
      start later := by
    simpa only [List.append_assoc] using whole
  exact parted.collects_single stands

/-- An operator with its operand behind it. -/
theorem Collects.apply {operand : Expression} {sign : Token} (op : UnaryOp)
    (passes : Passes [sign] state between) (collects : Collects [.expression operand] between later) :
    Collects [.expression (operand.apply op sign.span)] state later := by
  obtain ⟨gap, part, closes, operandPasses, stands⟩ := collects.single
  have whole := passes.trans operandPasses
  have parted : Passes ([] ++ (([sign] ++ (gap ++ part)) ++ closes)) state later := by
    simpa only [List.append_assoc, List.nil_append] using whole
  exact parted.collects_single (.unary gap stands)

/-! ### Constructs -/

/-- The statement runs from the first token that was moved over to the last one, and what is below
it stands in these tokens. -/
def Frames (tree : Statement) (state later : ParseState) : Prop :=
  ∃ first inner last, Passes (first :: (inner ++ [last])) state later ∧
    tree.span = first.span.merge last.span ∧
    Row Stands (first :: (inner ++ [last])) (Node.statement tree).children

/-- Where nodes were collected, tokens were moved over. -/
theorem Collects.moved (collects : Collects nodes state later) (notEmpty : nodes ≠ []) :
    state.rest ≠ later.rest := by
  obtain ⟨taken, passes, row⟩ := collects
  intro same
  have none : taken = [] := by
    have lengths := congrArg List.length passes.rest
    rw [same, List.length_append] at lengths
    exact List.eq_nil_of_length_eq_zero (by omega)
  cases row with
  | nil gap => exact notEmpty rfl
  | cons gap first others =>
      have parts := List.append_eq_nil_iff.mp none
      exact first.ne_nil (List.append_eq_nil_iff.mp parts.2).1

theorem Collects.advance_moved (collects : Collects nodes state between)
    (closed : state.closing.isEnd = true) (seen : between.current.kind = kind)
    (goesOn : kind ≠ .endOfInput) : state.rest ≠ between.advance.rest := by
  obtain ⟨taken, passes, row⟩ := collects
  have whole := passes.trans (passes_advance (passes.closing ▸ closed) seen goesOn)
  intro same
  have lengths := congrArg List.length whole.rest
  rw [same, List.length_append, List.length_append, List.length_singleton] at lengths
  omega

/-- A construct begins with a token of its own, and its range ends with the token taken last. -/
theorem frames_of_collects {tree : Statement} (closed : state.closing.isEnd = true)
    (seen : state.current.kind = kind) (goesOn : kind ≠ .endOfInput)
    (collects : Collects (Node.statement tree).children state.advance later)
    (moved : state.advance.rest ≠ later.rest)
    (range : tree.span = state.current.span.merge later.previous) : Frames tree state later := by
  obtain ⟨taken, passes, row⟩ := collects
  have notEmpty : taken ≠ [] := by
    intro none
    rw [passes.rest, none] at moved
    exact moved rfl
  obtain ⟨inner, last, rfl⟩ := List.eq_nil_or_concat taken |>.resolve_left notEmpty
  rw [List.concat_eq_append] at passes row
  have whole := (passes_advance closed seen goesOn).trans passes
  have ends : later.previous = last.span := by
    rw [passes.previous, List.getLast?_concat]
    rfl
  rw [ends] at range
  exact ⟨state.current, inner, last, whole, range, row.prepend [state.current]⟩

/-- A construct that is derived stands in its tokens. -/
theorem Frames.collects {tree : Statement} {level : Nat} {word : List Kind}
    (frames : Frames tree state later) (derived : States .kept level word tree.unplaced)
    (reads : Reads word state later) : Collects [.statement tree] state later := by
  obtain ⟨first, inner, last, passes, range, row⟩ := frames
  have same : word = (first :: (inner ++ [last])).map (·.kind) :=
    List.append_cancel_right (reads.ahead.symm.trans passes.toMoves.ahead)
  have parted : Passes ([] ++ ((first :: (inner ++ [last])) ++ [])) state later := by
    rwa [List.append_nil]
  exact parted.collects_single (.construct range (same ▸ derived) row)

end ParseState

namespace Parse

open ParseState (Passes Collects Frames passes_advance frames_of_collects)

variable {α : Type} {state between later : ParseState}

/-! ### Expressions -/

def CollectsExpressions (step : Parse Expression) : Prop :=
  ∀ {state tree later}, state.closing.isEnd = true → step.Gives state tree later →
    Collects [.expression tree] state later

theorem primary_collects {inner : Parse Expression} (innerCollects : CollectsExpressions inner) :
    CollectsExpressions (primary inner) := by
  intro state tree later closed given
  rcases gives_primary.mp given with ⟨found, rfl⟩ | ⟨_, opened, inside, innerGiven, shut, rfl⟩
  · have goesOn : state.current.kind ≠ .endOfInput := by
      intro ended
      simp [Expression.ofToken?, ended] at found
    have passes := passes_advance closed rfl goesOn
    exact @Passes.collects_single _ _ _ [] _ [] passes (.atom found)
  · have opens := (passes_advance closed opened (by simp)).collects
    have collects := opens.trans (innerCollects (opens.closed closed) innerGiven)
    exact collects.advance closed shut (by simp)

/-- What is read behind a run of operators is put below all of them. -/
theorem operatorRun_collects {levels : Nat} {run : List (UnaryOp × Span)} {innermost : Expression}
    (closed : state.closing.isEnd = true) (given : (operatorRun levels).Gives state run between)
    (collects : between.closing.isEnd = true → Collects [.expression innermost] between later) :
    Collects [.expression (run.foldr (fun entry inner => inner.apply entry.1 entry.2) innermost)]
      state later := by
  induction levels generalizing state run with
  | zero =>
      cases found : state.current.kind.unaryOp? with
      | some op => exact absurd given (not_gives_operatorRun_zero found)
      | none =>
          obtain ⟨rfl, rfl⟩ := (gives_operatorRun_of_none found).mp given
          exact collects closed
  | succ levels inductionHypothesis =>
      cases found : state.current.kind.unaryOp? with
      | none =>
          obtain ⟨rfl, rfl⟩ := (gives_operatorRun_of_none found).mp given
          exact collects closed
      | some op =>
          obtain ⟨fits, inner, innerGiven, rfl⟩ := (gives_operatorRun_of_some found).mp given
          have seen := Token.Kind.unaryOp?_eq_some_iff.mp found
          have passes := @passes_advance state.entered _ closed seen (by simp)
          have closedBehind : state.entered.advance.closing.isEnd = true := passes.closing ▸ closed
          have signPasses : Passes [state.current] state state.entered.advance :=
            passes.congr rfl rfl rfl rfl rfl rfl
          exact Collects.apply op signPasses (inductionHypothesis closedBehind innerGiven)

theorem unary_collects {operand : Parse Expression} (operandCollects : CollectsExpressions operand) :
    CollectsExpressions (unary operand) := by
  intro state tree later closed given
  obtain ⟨run, between, innermost, runGiven, innerGiven, rfl⟩ := gives_unary.mp given
  apply operatorRun_collects closed runGiven
  intro closedBetween
  have inner : Collects [.expression innermost] (between.leave run.length) later :=
    operandCollects closedBetween innerGiven
  exact inner.congr rfl rfl rfl rfl rfl rfl

/-- What is read on behind a left operand is put above it. -/
theorem chain_collects {operand : Parse Expression} (operandCollects : CollectsExpressions operand)
    {precedence : Precedence} {budget : Nat} {start : ParseState} {left tree : Expression}
    (closed : start.closing.isEnd = true) (collects : Collects [.expression left] start state)
    (given : (chain operand precedence budget left).Gives state tree later) :
    Collects [.expression tree] start later := by
  induction budget generalizing state left with
  | zero =>
      cases found : operatorAt precedence state.current with
      | some op => exact absurd given (not_gives_chain_zero found)
      | none =>
          obtain ⟨rfl, rfl⟩ := (gives_chain_of_none found).mp given
          exact collects
  | succ budget inductionHypothesis =>
      cases found : operatorAt precedence state.current with
      | none =>
          obtain ⟨rfl, rfl⟩ := (gives_chain_of_none found).mp given
          exact collects
      | some op =>
          obtain ⟨seen, _⟩ := operatorAt_eq_some_iff.mp found
          obtain ⟨fits, right, between, rightGiven, rest⟩ := (gives_chain_of_some found).mp given
          have passes := @passes_advance state.counted _ (collects.closed closed) seen (by simp)
          have signPasses : Passes [state.current] state state.counted.advance :=
            passes.congr rfl rfl rfl rfl rfl rfl
          have closedBehind : state.counted.advance.closing.isEnd = true :=
            signPasses.closing ▸ collects.closed closed
          have joined : Collects [.expression (.join op left right)] start between :=
            .combine .binary collects signPasses (operandCollects closedBehind rightGiven)
          exact inductionHypothesis joined rest

theorem binary_collects {operand : Parse Expression} (operandCollects : CollectsExpressions operand)
    (precedence : Precedence) : CollectsExpressions (binary operand precedence) := by
  intro state tree later closed given
  simp only [binary, gives_bind] at given
  obtain ⟨left, between, leftGiven, rest⟩ := given
  exact chain_collects operandCollects closed (operandCollects closed leftGiven) rest

theorem nestedExpression_collects (levels : Nat) : CollectsExpressions (nestedExpression levels) := by
  induction levels with
  | zero =>
      intro state tree later closed given
      exact absurd given gives_tooDeep
  | succ levels inductionHypothesis =>
      intro state tree later closed given
      obtain ⟨fits, inside, innerGiven, rfl⟩ := gives_nested.mp given
      have body : CollectsExpressions (expressionBody (nestedExpression levels)) :=
        binary_collects (binary_collects (binary_collects (binary_collects (binary_collects
          (binary_collects (unary_collects (primary_collects inductionHypothesis)) _) _) _) _) _) _
      have inner : Collects [.expression tree] state.entered inside := body closed innerGiven
      exact inner.congr rfl rfl rfl rfl rfl rfl

theorem expression_collects (levels : Nat) : CollectsExpressions (expression levels) := by
  intro state tree later closed given
  simp only [expression, gives_bind, gives_resetOperators] at given
  obtain ⟨_, _, rfl, innerGiven⟩ := given
  have inner : Collects [.expression tree] state.uncounted later :=
    nestedExpression_collects levels closed innerGiven
  exact inner.congr rfl rfl rfl rfl rfl rfl

/-! ### Statements -/

def CollectsStatements (step : Parse Statement) : Prop :=
  ∀ {state tree later}, state.Ready → step.Gives state tree later →
    Collects [.statement tree] state later

theorem identifier_collects {written : Identifier} (closed : state.closing.isEnd = true)
    (given : identifier.Gives state written later) : Collects [.name written] state later := by
  obtain ⟨text, seen, rfl, rfl⟩ := gives_identifier.mp given
  have passes := passes_advance closed seen (by simp)
  exact @Passes.collects_single _ _ _ [] _ [] passes (.name seen)

variable {levels : Nat}

theorem declaration_frames {ty : Ty} {declared : Declaration} (closed : state.closing.isEnd = true)
    (named : state.current.kind.type? = some ty)
    (given : (declaration ty (expression levels)).Gives state declared later) :
    Frames (.declaration declared) state later := by
  obtain ⟨keyword, seen, _⟩ := Token.Kind.type?_eq_some_iff.mp named
  obtain ⟨name, between, nameGiven, rest⟩ := gives_declaration.mp given
  have closedName : state.advance.closing.isEnd = true := state.advance_closing ▸ closed
  have nameCollects := identifier_collects closedName nameGiven
  split at rest
  · rename_i assigned
    obtain ⟨value, last, valueGiven, shut, rfl, rfl⟩ := rest
    have collects := nameCollects.advance closedName assigned (by simp)
    have collects := collects.trans (expression_collects levels (collects.closed closedName) valueGiven)
    have collects := collects.advance closedName shut (by simp)
    exact frames_of_collects closed seen (by simp) collects (collects.moved (by simp)) rfl
  · obtain ⟨shut, rfl, rfl⟩ := rest
    have collects := nameCollects.advance closedName shut (by simp)
    exact frames_of_collects closed seen (by simp) collects (collects.moved (by simp)) rfl

theorem assignment_collects {stored : Assignment} (closed : state.closing.isEnd = true)
    (given : (assignment (expression levels)).Gives state stored later) :
    Collects [.statement (.assignment stored)] state later := by
  obtain ⟨target, between, op, value, targetGiven, found, valueGiven, rfl⟩ := gives_assignment.mp given
  have targetCollects := identifier_collects closed targetGiven
  have seen := Token.Kind.assignOp?_eq_some_iff.mp found
  have passes := passes_advance (targetCollects.closed closed) seen (by simp)
  have closedBehind := passes.closing ▸ targetCollects.closed closed
  have valueCollects := expression_collects levels closedBehind valueGiven
  exact .combine .assignment targetCollects passes valueCollects

theorem parenthesized_collects {value : Expression} (closed : state.closing.isEnd = true)
    (given : (parenthesized (expression levels)).Gives state value later) :
    Collects [.expression value] state later := by
  obtain ⟨opened, inside, valueGiven, shut, rfl⟩ := gives_parenthesized.mp given
  have opens := (passes_advance closed opened (by simp)).collects
  have collects := opens.trans (expression_collects levels (opens.closed closed) valueGiven)
  exact collects.advance closed shut (by simp)

theorem print_frames {tree : Statement} (closed : state.closing.isEnd = true)
    (seen : state.current.kind = .keyword .printWord)
    (given : (print (expression levels)).Gives state tree later) : Frames tree state later := by
  obtain ⟨value, between, valueGiven, shut, rfl, rfl⟩ := gives_print.mp given
  have closedValue : state.advance.closing.isEnd = true := state.advance_closing ▸ closed
  have collects := (parenthesized_collects closedValue valueGiven).advance closedValue shut (by simp)
  exact frames_of_collects closed seen (by simp) collects (collects.moved (by simp)) rfl

/-- A declaration at the head of a loop is one like any other. -/
theorem loopStart_collects {start : LoopStart} (ready : state.Ready)
    (given : (loopStart (expression levels)).Gives state start later) :
    Collects (start.statement?.toList.map .statement) state later := by
  rcases gives_loopStart.mp given with
    ⟨ty, declared, named, declaredGiven, rfl⟩ | ⟨seen, rfl, rfl⟩ |
    ⟨_, stored, between, _, storedGiven, shut, rfl, rfl⟩
  · obtain ⟨word, derived, reads⟩ := declaration_reads ty
      (fun ready same given => same ▸ expression_reads ready given) ready rfl named declaredGiven
    exact (declaration_frames ready.closing named declaredGiven).collects
      (.declaration ready.depth derived) reads
  · exact (passes_advance ready.closing seen (by simp)).collects
  · exact (assignment_collects ready.closing storedGiven).advance ready.closing shut (by simp)

theorem unlessAt_collects {step : Parse α} {symbol : Symbol} {value? : Option α} {node : α → Node}
    (stepCollects : ∀ {value}, step.Gives state value later → Collects [node value] state later)
    (given : (unlessAt symbol step).Gives state value? later) :
    Collects (value?.toList.map node) state later := by
  have split := gives_unlessAt.mp given
  split at split
  · obtain ⟨rfl, rfl⟩ := split
    exact (Passes.refl state).collects
  · obtain ⟨value, valueGiven, rfl⟩ := split
    exact stepCollects valueGiven

theorem repeatWhile_collects {step : Parse Statement} (stepCollects : CollectsStatements step)
    (stepKeeps : KeepsReady step) {goesOn : Token → Bool} {budget : List Token}
    {body : List Statement} (ready : state.Ready)
    (given : (repeatWhile goesOn step budget).Gives state body later) :
    Collects (body.map .statement) state later := by
  induction budget generalizing state body with
  | nil =>
      obtain ⟨rfl, rfl⟩ := gives_pure.mp given
      exact (Passes.refl state).collects
  | cons token budget inductionHypothesis =>
      have unrolled := gives_repeatWhile_cons.mp given
      split at unrolled
      · obtain ⟨first, between, others, firstGiven, othersGiven, rfl⟩ := unrolled
        have readyBetween := stepKeeps ready firstGiven
        exact (stepCollects ready firstGiven).trans (inductionHypothesis readyBetween othersGiven)
      · obtain ⟨rfl, rfl⟩ := unrolled
        exact (Passes.refl state).collects

section Bodies

variable (statementCollects : CollectsStatements (statement levels))

include statementCollects

theorem conditional_frames {tree : Statement} (ready : state.Ready)
    (seen : state.current.kind = .keyword .ifWord)
    (given : (conditional (statement levels) (expression levels)).Gives state tree later) :
    Frames tree state later := by
  obtain ⟨condition, between, conditionGiven, branch, last, branchGiven, rest⟩ :=
    gives_conditional.mp given
  have readyTest := ready.advance
  have readyBranch := keepsReady_compositional.parenthesized
    (keepsReady_counting.expression levels) readyTest conditionGiven
  have collects := (parenthesized_collects readyTest.closing conditionGiven).trans
    (statementCollects readyBranch branchGiven)
  split at rest
  · rename_i followed
    obtain ⟨otherwise, otherGiven, rfl⟩ := rest
    have readyLast := keepsReady_statement levels readyBranch branchGiven
    have readyOther := readyLast.advance
    have collects := collects.advance readyTest.closing followed (by simp)
    have collects := collects.trans (statementCollects readyOther otherGiven)
    exact frames_of_collects ready.closing seen (by simp) collects (collects.moved (by simp)) rfl
  · obtain ⟨rfl, rfl⟩ := rest
    exact frames_of_collects ready.closing seen (by simp) collects (collects.moved (by simp)) rfl

theorem whileLoop_frames {tree : Statement} (ready : state.Ready)
    (seen : state.current.kind = .keyword .whileWord)
    (given : (whileLoop (statement levels) (expression levels)).Gives state tree later) :
    Frames tree state later := by
  obtain ⟨condition, between, body, conditionGiven, bodyGiven, rfl⟩ := gives_whileLoop.mp given
  have readyTest := ready.advance
  have readyBody := keepsReady_compositional.parenthesized
    (keepsReady_counting.expression levels) readyTest conditionGiven
  have collects := (parenthesized_collects readyTest.closing conditionGiven).trans
    (statementCollects readyBody bodyGiven)
  exact frames_of_collects ready.closing seen (by simp) collects (collects.moved (by simp)) rfl

theorem forLoop_frames {tree : Statement} (ready : state.Ready)
    (seen : state.current.kind = .keyword .forWord)
    (given : (forLoop (statement levels) (expression levels)).Gives state tree later) :
    Frames tree state later := by
  obtain ⟨opened, start, first, condition?, second, update?, third, body, startGiven,
    conditionGiven, separated, updateGiven, shut, bodyGiven, rfl⟩ := gives_forLoop.mp given
  have expressionKeeps : KeepsReady (expression levels) := keepsReady_counting.expression levels
  have readyWord := ready.advance
  have readyOpen := readyWord.advance
  have readyFirst := keepsReady_compositional.loopStart expressionKeeps readyOpen startGiven
  have readySecond := keepsReady_compositional.unlessAt expressionKeeps _ readyFirst conditionGiven
  have readyUpdate := readySecond.advance
  have readyThird := keepsReady_compositional.unlessAt
    (keepsReady_compositional.assignment expressionKeeps) _ readyUpdate updateGiven
  have readyBody := readyThird.advance
  have opens := (passes_advance readyWord.closing opened (by simp)).collects
  have collects := opens.trans (loopStart_collects readyOpen startGiven)
  have collects := collects.trans
    (unlessAt_collects (expression_collects levels readyFirst.closing) conditionGiven)
  have collects := collects.advance readyWord.closing separated (by simp)
  have collects := collects.trans
    (unlessAt_collects (assignment_collects readyUpdate.closing) updateGiven)
  have collects := collects.advance readyWord.closing shut (by simp)
  have collects := collects.trans (statementCollects readyBody bodyGiven)
  exact frames_of_collects ready.closing seen (by simp) collects (collects.moved (by simp)) rfl

theorem block_frames {tree : Statement} (ready : state.Ready)
    (given : (block (statement levels)).Gives state tree later) : Frames tree state later := by
  obtain ⟨opened, body, between, bodyGiven, shut, rfl, rfl⟩ := gives_block.mp given
  have readyOpen := ready.advance
  have bodyCollects := repeatWhile_collects statementCollects (keepsReady_statement levels) readyOpen
    (gives_many.mp bodyGiven)
  have collects := bodyCollects.advance readyOpen.closing shut (by simp)
  have moved := bodyCollects.advance_moved readyOpen.closing shut (by simp)
  exact frames_of_collects ready.closing opened (by simp) collects moved rfl

/-- A statement is collected with its tokens, or it is a store or a semicolon. -/
theorem statementBody_collects {tree : Statement} (ready : state.Ready)
    (given : (statementBody (statement levels) (expression levels)).Gives state tree later) :
    Frames tree state later ∨ Collects [.statement tree] state later := by
  rcases gives_statementBody.mp given with
    ⟨ty, declared, named, declaredGiven, rfl⟩ |
    ⟨_, stored, between, _, storedGiven, shut, rfl, rfl⟩ |
    ⟨seen, given⟩ | ⟨seen, given⟩ | ⟨seen, given⟩ | ⟨seen, given⟩ | ⟨_, given⟩ |
    ⟨seen, rfl, rfl⟩
  · exact .inl (declaration_frames ready.closing named declaredGiven)
  · exact .inr ((assignment_collects ready.closing storedGiven).advance ready.closing shut (by simp))
  · exact .inl (conditional_frames statementCollects ready seen given)
  · exact .inl (whileLoop_frames statementCollects ready seen given)
  · exact .inl (forLoop_frames statementCollects ready seen given)
  · exact .inl (print_frames ready.closing seen given)
  · exact .inl (block_frames statementCollects ready given)
  · have passes := passes_advance ready.closing seen (by simp)
    exact .inr (@Passes.collects_single _ _ _ [] _ [] passes (.empty _))

end Bodies

theorem statement_collects (levels : Nat) : CollectsStatements (statement levels) := by
  induction levels with
  | zero =>
      intro state tree later ready given
      exact absurd given gives_tooDeep
  | succ levels inductionHypothesis =>
      intro state tree later ready given
      obtain ⟨word, derived, reads, _⟩ := statement_reads (levels + 1) ready rfl given
      obtain ⟨fits, inside, bodyGiven, rfl⟩ := gives_nested.mp given
      rcases statementBody_collects inductionHypothesis (ready.entered fits) bodyGiven with
        framed | collects
      · obtain ⟨first, inner, last, passes, range, row⟩ := framed
        have outside : Frames tree state (inside.leave 1) :=
          ⟨first, inner, last, passes.congr rfl rfl rfl rfl rfl rfl, range, row⟩
        exact outside.collects derived reads
      · exact collects.congr rfl rfl rfl rfl rfl rfl

/-- The statements of a program stand in its tokens, one behind the other. -/
theorem program_collects {program : Program} (ready : state.Ready)
    (given : Parse.program.Gives state program later) :
    Collects (program.statements.map .statement) state later := by
  obtain ⟨body, bodyGiven, rfl⟩ := gives_map.mp given
  apply repeatWhile_collects _ _ ready (gives_many.mp bodyGiven)
  · intro state tree later ready given
    exact statement_collects maxDepth ready (gives_outerStatement.mp given).2
  · exact keepsReady_compositional.outerStatement keepsReady_counting.expression

end Parse

end StagedAnalysis
