import StagedAnalysis.Proofs.Reading.Reuse
import StagedAnalysis.Checking.Analyzer
import StagedAnalysis.Proofs.Checking.Traces
/-!
Two programs one behind the other are one program.

Reading the first of them is compared with reading it where the second one follows. As long as a step
does not come to the end of the first program, it cannot tell. A statement comes to the end only with
its last token; behind that it may look for an `else`, and finds none, since the second program begins
as a statement does. Where the first program ends, the second one is read as if it stood alone.
-/
namespace StagedAnalysis

namespace ParseState

variable {state later : ParseState}

structure Unended (state : ParseState) : Prop where
  closed : state.closing.isEnd = true
  goesOn : ∀ token ∈ state.rest, token.isEnd = false

theorem Unended.reaches (unended : state.Unended) (reaches : state.Reaches later) :
    later.Unended := by
  obtain ⟨taken, moves⟩ := reaches
  refine ⟨moves.closing ▸ unended.closed, fun token isLeft => unended.goesOn token ?_⟩
  rw [moves.rest]
  exact List.mem_append_right taken isLeft

theorem Unended.isAtEnd_iff (unended : state.Unended) : state.isAtEnd = true ↔ state.rest = [] := by
  rcases state with ⟨rest, previous, depth, operators, closing⟩
  cases rest with
  | nil => simpa [isAtEnd, current] using unended.closed
  | cons token rest => simpa [isAtEnd, current] using unended.goesOn token List.mem_cons_self

theorem Unended.entered (unended : state.Unended) : state.entered.Unended :=
  ⟨unended.closed, unended.goesOn⟩

/-- A state is not further than one that is not at the end. -/
theorem Reaches.rest_ne_nil (reaches : state.Reaches later) (notEmpty : later.rest ≠ []) :
    state.rest ≠ [] := by
  obtain ⟨taken, moves⟩ := reaches
  rw [moves.rest]
  exact List.append_ne_nil_of_right_ne_nil taken notEmpty

def extended (behind : List Token) (closing : Token) (state : ParseState) : ParseState :=
  { state with rest := state.rest ++ behind, closing := closing }

variable (behind : List Token) (closing : Token)

theorem current_extended (notEmpty : state.rest ≠ []) :
    (state.extended behind closing).current = state.current := by
  rcases state with ⟨rest, previous, depth, operators, ending⟩
  cases rest with
  | nil => exact absurd rfl notEmpty
  | cons token rest => rfl

theorem advance_extended (notEmpty : state.rest ≠ []) :
    (state.extended behind closing).advance = state.advance.extended behind closing := by
  rcases state with ⟨rest, previous, depth, operators, ending⟩
  cases rest with
  | nil => exact absurd rfl notEmpty
  | cons token rest => cases ended : token.isEnd <;> simp [extended, advance, ended]

theorem current_extended_of_nil (empty : state.rest = []) :
    (state.extended behind closing).current = behind.headD closing := by
  rw [extended, current, empty]
  rfl

theorem extended_ofTokens (first : List Token) {second : List Token} (notEmpty : second ≠ []) :
    (ofTokens first).extended second (ofTokens second).closing = ofTokens (first ++ second) := by
  rw [← closing_ofTokens_append first notEmpty]
  rfl

end ParseState

namespace Parse

open ParseState (Unended Reaches extended)

variable {α β : Type} {behind : List Token} {closing : Token}

/-! ### Carrying over -/

/-- What the step reads up to the end it reads also where more tokens follow. -/
def Carries (behind : List Token) (closing : Token) (step : Parse α) : Prop :=
  ∀ ⦃state value later⦄, Unended state → step.Gives state value later → state.Reaches later ∧
    step.Gives (state.extended behind closing) value (later.extended behind closing)

def CarriesInside (behind : List Token) (closing : Token) (step : Parse α) : Prop :=
  ∀ ⦃state value later⦄, Unended state → step.Gives state value later → state.Reaches later ∧
    (later.rest ≠ [] → step.Gives (state.extended behind closing) value (later.extended behind closing))

structure Finishes (behind : List Token) (closing : Token) (step : Parse α) : Prop where
  carries : Carries behind closing step
  needsToken : ∀ ⦃state value later⦄, Unended state → step.Gives state value later →
    state.rest ≠ []

section Steps

variable {step : Parse α}

theorem Carries.inside (carries : Carries behind closing step) : CarriesInside behind closing step := by
  intro state value later unended given
  obtain ⟨reaches, carried⟩ := carries unended given
  exact ⟨reaches, fun _ => carried⟩

theorem carries_pure (value : α) : Carries behind closing (pure value) := by
  intro state result later unended given
  obtain ⟨rfl, rfl⟩ := gives_pure.mp given
  exact ⟨.refl _, gives_pure.mpr ⟨rfl, rfl⟩⟩

theorem carries_previous : Carries behind closing previous := by
  intro state result later unended given
  obtain ⟨rfl, rfl⟩ := gives_previous.mp given
  exact ⟨.refl _, gives_previous.mpr ⟨rfl, rfl⟩⟩

theorem carries_enter : Carries behind closing enter := by
  intro state value later unended given
  obtain ⟨fits, rfl⟩ := gives_enter.mp given
  exact ⟨(Reaches.refl _).congr rfl rfl rfl rfl, gives_enter.mpr ⟨fits, rfl⟩⟩

theorem carries_leave (levels : Nat) : Carries behind closing (leave levels) := by
  intro state value later unended given
  obtain rfl := gives_leave.mp given
  exact ⟨(Reaches.refl _).congr rfl rfl rfl rfl, gives_leave.mpr rfl⟩

theorem carries_countOperator : Carries behind closing countOperator := by
  intro state value later unended given
  obtain ⟨fits, rfl⟩ := gives_countOperator.mp given
  exact ⟨(Reaches.refl _).congr rfl rfl rfl rfl, gives_countOperator.mpr ⟨fits, rfl⟩⟩

theorem carries_resetOperators : Carries behind closing resetOperators := by
  intro state value later unended given
  obtain rfl := gives_resetOperators.mp given
  exact ⟨(Reaches.refl _).congr rfl rfl rfl rfl, gives_resetOperators.mpr rfl⟩

/-- Only what takes the last token and goes on behind it could tell that the input goes on. -/
theorem carriesInside_compositional : Compositional (CarriesInside behind closing) where
  pure value := (carries_pure value).inside
  bind first rest := by
    intro state value later unended given
    obtain ⟨result, between, firstGiven, restGiven⟩ := gives_bind.mp given
    obtain ⟨reaches, carried⟩ := first unended firstGiven
    obtain ⟨restReaches, restCarried⟩ := rest result (unended.reaches reaches) restGiven
    refine ⟨reaches.trans restReaches, fun notEmpty => ?_⟩
    have carried := carried (restReaches.rest_ne_nil notEmpty)
    exact gives_bind.mpr ⟨_, _, carried, restCarried notEmpty⟩
  current {_ next} each := by
    intro state value later unended given
    have given : (next state.current).Gives state value later := gives_look.mp given
    obtain carries | ⟨error, _, rejects⟩ := each state.current
    · obtain ⟨reaches, carried⟩ := carries unended given
      refine ⟨reaches, fun notEmpty => gives_look.mpr ?_⟩
      rw [ParseState.current_extended _ _ (reaches.rest_ne_nil notEmpty)]
      exact carried notEmpty
    · exact absurd (rejects ▸ given) gives_throw
  advance := by
    intro state value later unended given
    obtain ⟨rfl, rfl⟩ := gives_advance.mp given
    have reaches := state.reaches_advance
    refine ⟨reaches, fun notEmpty => gives_advance.mpr ?_⟩
    have notEmpty := reaches.rest_ne_nil notEmpty
    exact ⟨ParseState.current_extended _ _ notEmpty, ParseState.advance_extended _ _ notEmpty⟩
  previous := carries_previous.inside
  tooDeep := by
    intro _ state value later unended given
    exact absurd given gives_tooDeep
  nested {_ step} inner := by
    intro state value later unended given
    obtain ⟨fits, inside, innerGiven, rfl⟩ := gives_nested.mp given
    obtain ⟨reaches, carried⟩ := inner unended.entered innerGiven
    exact ⟨reaches.congr rfl rfl rfl rfl,
      fun notEmpty => gives_nested.mpr ⟨fits, _, carried notEmpty, rfl⟩⟩
  many {_ step goesOn} each progresses stops := by
    intro state values later unended given
    -- the longer budget makes no difference without the tokens that it counts
    have sameBudget : repeatWhile goesOn step state.rest state =
        repeatWhile goesOn step (state.rest ++ behind) state :=
      progresses.repeatWhile_eq stops unended.closed (Nat.le_refl _) (by simp)
    exact each (state.rest ++ behind) unended (sameBudget.symm.trans given)

theorem carriesInside_counting : CompositionalCounting (CarriesInside behind closing) where
  toCompositional := carriesInside_compositional
  tooLong := by
    intro _ state value later unended given
    exact absurd given gives_tooLong
  countOperator := carries_countOperator.inside
  resetOperators := carries_resetOperators.inside
  unary := carriesInside_compositional.unary carries_enter.inside
    fun levels => (carries_leave levels).inside

/-! ### Up to the seam -/

variable {next : α → Parse β}

theorem Carries.bind (first : Carries behind closing step)
    (rest : ∀ value, Carries behind closing (next value)) : Carries behind closing (step >>= next) := by
  intro state value later unended given
  obtain ⟨result, between, firstGiven, restGiven⟩ := gives_bind.mp given
  obtain ⟨reaches, carried⟩ := first unended firstGiven
  obtain ⟨restReaches, restCarried⟩ := rest result (unended.reaches reaches) restGiven
  exact ⟨reaches.trans restReaches, gives_bind.mpr ⟨_, _, carried, restCarried⟩⟩

theorem carries_ite {condition : Prop} [Decidable condition] {first second : Parse α}
    (firstCarries : Carries behind closing first) (secondCarries : Carries behind closing second) :
    Carries behind closing (if condition then first else second) := by
  split
  · exact firstCarries
  · exact secondCarries

theorem Finishes.andThen (first : Finishes behind closing step)
    (rest : ∀ value, Carries behind closing (next value)) : Finishes behind closing (step >>= next) where
  carries := first.carries.bind rest
  needsToken := by
    intro state value later unended given
    obtain ⟨result, between, firstGiven, _⟩ := gives_bind.mp given
    exact first.needsToken unended firstGiven

/-- A step that needs a token does not leave the step in front of it at the end. -/
theorem CarriesInside.andFinally (first : CarriesInside behind closing step)
    (rest : ∀ value, Finishes behind closing (next value)) : Finishes behind closing (step >>= next) where
  carries := by
    intro state value later unended given
    obtain ⟨result, between, firstGiven, restGiven⟩ := gives_bind.mp given
    obtain ⟨reaches, carried⟩ := first unended firstGiven
    have unendedBetween := unended.reaches reaches
    obtain ⟨restReaches, restCarried⟩ := (rest result).carries unendedBetween restGiven
    have notEmpty := (rest result).needsToken unendedBetween restGiven
    exact ⟨reaches.trans restReaches, gives_bind.mpr ⟨_, _, carried notEmpty, restCarried⟩⟩
  needsToken := by
    intro state value later unended given
    obtain ⟨result, between, firstGiven, restGiven⟩ := gives_bind.mp given
    obtain ⟨reaches, _⟩ := first unended firstGiven
    exact reaches.rest_ne_nil ((rest result).needsToken (unended.reaches reaches) restGiven)

theorem finishes_ite {condition : Prop} [Decidable condition] {first second : Parse α}
    (firstFinishes : Finishes behind closing first) (secondFinishes : Finishes behind closing second) :
    Finishes behind closing (if condition then first else second) := by
  split
  · exact firstFinishes
  · exact secondFinishes

theorem rest_ne_nil_of_current {state : ParseState} (unended : Unended state)
    (goesOn : state.current.kind ≠ .endOfInput) : state.rest ≠ [] := by
  intro empty
  have ended := unended.isAtEnd_iff.mpr empty
  exact goesOn (beq_iff_eq.mp ended)

/-- A symbol that has to come is no end of the input. -/
theorem finishes_expectAs (symbol : Symbol) (expected : String) :
    Finishes behind closing (expectAs symbol expected) where
  carries := by
    intro state value later unended given
    obtain ⟨seen, rfl, rfl⟩ := gives_expectAs.mp given
    have notEmpty := rest_ne_nil_of_current unended (by rw [seen]; simp)
    have same := ParseState.current_extended behind closing notEmpty
    have moved := ParseState.advance_extended behind closing notEmpty
    exact ⟨state.reaches_advance, gives_expectAs.mpr ⟨same ▸ seen, same, moved⟩⟩
  needsToken := by
    intro state value later unended given
    apply rest_ne_nil_of_current unended
    rw [(gives_expectAs.mp given).1]
    simp

theorem finishes_expect (symbol : Symbol) : Finishes behind closing (expect symbol) :=
  finishes_expectAs symbol _

theorem Finishes.nested (inner : Finishes behind closing step) :
    Finishes behind closing fun state => nested step state where
  carries := by
    intro state value later unended given
    obtain ⟨fits, inside, innerGiven, rfl⟩ := gives_nested.mp given
    obtain ⟨reaches, carried⟩ := inner.carries unended.entered innerGiven
    exact ⟨reaches.congr rfl rfl rfl rfl, gives_nested.mpr ⟨fits, _, carried, rfl⟩⟩
  needsToken := by
    intro state value later unended given
    obtain ⟨_, inside, innerGiven, _⟩ := gives_nested.mp given
    have notEmpty : state.entered.rest ≠ [] := inner.needsToken unended.entered innerGiven
    exact notEmpty

/-- What depends on the next token carries if it fails at the end and each of its branches carries
in front of the end. -/
theorem finishes_of_current {next : Token → Parse α}
    (fails : ∀ token : Token, token.isEnd = true → ∀ state value later,
      ¬(next token).Gives state value later)
    (each : ∀ token ⦃state value later⦄, Unended state → state.rest ≠ [] →
      (next token).Gives state value later → state.Reaches later ∧
        (next token).Gives (state.extended behind closing) value (later.extended behind closing)) :
    Finishes behind closing (current >>= next) := by
  have needsToken ⦃state value later⦄ (unended : Unended state)
      (given : (current >>= next).Gives state value later) : state.rest ≠ [] := by
    intro empty
    exact fails _ (unended.isAtEnd_iff.mpr empty) _ _ _ (gives_look.mp given)
  refine ⟨fun state value later unended given => ?_, needsToken⟩
  have notEmpty := needsToken unended given
  obtain ⟨reaches, carried⟩ := each _ unended notEmpty (gives_look.mp given)
  refine ⟨reaches, gives_look.mpr ?_⟩
  rw [ParseState.current_extended behind closing notEmpty]
  exact carried

end Steps

/-! ### Statements -/

def Begins (token : Token) : Prop :=
  token.isEnd = true ∨ token.kind.startsStatement = true

section Statements

variable {statement : Parse Statement} {expression : Parse Expression}

/-- No branch that is missing in the first program is found in the second one. -/
theorem carries_accept_else (seam : Begins (behind.headD closing)) :
    Carries behind closing (accept (.keyword .elseWord)) := by
  intro state value later unended given
  by_cases empty : state.rest = []
  · have seen : (state.extended behind closing).current.kind ≠ .keyword .elseWord := by
      rw [ParseState.current_extended_of_nil _ _ empty]
      intro seen
      rcases seam with ended | starts
      · rw [Token.isEnd, seen] at ended
        cases ended
      · rw [seen] at starts
        cases starts
    have ended : state.current.kind ≠ .keyword .elseWord := by
      have ended := beq_iff_eq.mp (unended.isAtEnd_iff.mpr empty)
      rw [ended]
      simp
    rw [gives_accept, if_neg ended] at given
    obtain ⟨rfl, rfl⟩ := given
    refine ⟨.refl _, gives_accept.mpr ?_⟩
    rw [if_neg seen]
    exact ⟨rfl, rfl⟩
  · have same := ParseState.current_extended behind closing empty
    have further := ParseState.advance_extended behind closing empty
    rw [gives_accept] at given
    split at given
    · rename_i seen
      obtain ⟨rfl, rfl⟩ := given
      refine ⟨state.reaches_advance, gives_accept.mpr ?_⟩
      rw [if_pos (same ▸ seen)]
      exact ⟨rfl, further⟩
    · rename_i seen
      obtain ⟨rfl, rfl⟩ := given
      refine ⟨.refl _, gives_accept.mpr ?_⟩
      rw [if_neg (same ▸ seen)]
      exact ⟨rfl, rfl⟩

theorem carries_range (build : Span → α) :
    Carries behind closing (previous >>= fun last => pure (build last)) :=
  carries_previous.bind fun _ => carries_pure _

variable (expressionCarries : CarriesInside behind closing expression)

include expressionCarries

theorem finishes_declaration (ty : Ty) : Finishes behind closing (declaration ty expression) :=
  carriesInside_compositional.advance.andFinally fun _ =>
    carriesInside_compositional.identifier.andFinally fun _ =>
      (carriesInside_compositional.accept _).andFinally fun _ => finishes_ite
        (expressionCarries.andFinally fun _ => (finishes_expect _).andThen fun _ => carries_range _)
        ((finishes_expectAs _ _).andThen fun _ => carries_range _)

theorem finishes_print : Finishes behind closing (print expression) :=
  carriesInside_compositional.advance.andFinally fun _ =>
    (carriesInside_compositional.parenthesized expressionCarries).andFinally fun _ =>
      (finishes_expect _).andThen fun _ => carries_range _

variable (statementFinishes : Finishes behind closing statement)

include statementFinishes

theorem finishes_conditional (seam : Begins (behind.headD closing)) :
    Finishes behind closing (conditional statement expression) := by
  refine carriesInside_compositional.advance.andFinally fun _ =>
    (carriesInside_compositional.parenthesized expressionCarries).andFinally fun _ =>
      statementFinishes.andThen fun _ => (carries_accept_else seam).bind fun _ => carries_ite ?_ ?_
  · exact statementFinishes.carries.bind fun _ => carries_range _
  · exact carries_range _

theorem finishes_whileLoop : Finishes behind closing (whileLoop statement expression) :=
  carriesInside_compositional.advance.andFinally fun _ =>
    (carriesInside_compositional.parenthesized expressionCarries).andFinally fun _ =>
      statementFinishes.andThen fun _ => carries_range _

theorem finishes_forLoop : Finishes behind closing (forLoop statement expression) :=
  carriesInside_compositional.advance.andFinally fun _ =>
    (carriesInside_compositional.expect _).andFinally fun _ =>
      (carriesInside_compositional.loopStart expressionCarries).andFinally fun _ =>
        (carriesInside_compositional.unlessAt expressionCarries _).andFinally fun _ =>
          (carriesInside_compositional.expect _).andFinally fun _ =>
            (carriesInside_compositional.unlessAt
              (carriesInside_compositional.assignment expressionCarries) _).andFinally fun _ =>
              (finishes_expect _).andThen fun _ =>
                statementFinishes.carries.bind fun _ => carries_range _

omit expressionCarries in
theorem finishes_block (progresses : Progresses statement) :
    Finishes behind closing (block statement) :=
  (carriesInside_compositional.expect _).andFinally fun _ =>
    (carriesInside_compositional.many
      (carriesInside_compositional.repeatWhile statementFinishes.carries.inside) progresses
        fun token ended => by simp [ended]).andFinally fun _ =>
      (finishes_expect _).andThen fun _ => carries_range _

/-- Every statement has a last token of its own. -/
theorem finishes_statementBody (seam : Begins (behind.headD closing)) (progresses : Progresses statement) :
    Finishes behind closing (statementBody statement expression) := by
  have declares := finishes_declaration expressionCarries
  apply finishes_of_current
  · intro token ended state value later given
    rw [beq_iff_eq.mp ended] at given
    exact gives_unexpected given
  · intro token state value later unended notEmpty
    split
    · split
      · exact (((declares _).andThen fun _ => carries_pure _).carries unended ·)
      · split
        · exact ((finishes_conditional expressionCarries statementFinishes seam).carries unended ·)
        · exact ((finishes_whileLoop expressionCarries statementFinishes).carries unended ·)
        · exact ((finishes_forLoop expressionCarries statementFinishes).carries unended ·)
        · exact ((finishes_print expressionCarries).carries unended ·)
        · exact fun given => absurd given gives_unexpected
    · have finishes := (carriesInside_compositional.assignment expressionCarries).andFinally fun stored =>
        (finishes_expect .semicolon).andThen fun _ => carries_pure (Statement.assignment stored)
      exact (finishes.carries unended ·)
    · exact ((finishes_block statementFinishes progresses).carries unended ·)
    · intro given
      obtain ⟨only, between, taken, same⟩ := gives_bind.mp given
      obtain ⟨rfl, rfl⟩ := gives_advance.mp taken
      obtain ⟨rfl, rfl⟩ := gives_pure.mp same
      have takenAgain := gives_advance.mpr ⟨ParseState.current_extended behind closing notEmpty,
        ParseState.advance_extended behind closing notEmpty⟩
      exact ⟨state.reaches_advance, gives_bind.mpr ⟨_, _, takenAgain, gives_pure.mpr ⟨rfl, rfl⟩⟩⟩
    · exact fun given => absurd given gives_unexpected

end Statements

theorem finishes_statement (seam : Begins (behind.headD closing)) (levels : Nat) :
    Finishes behind closing (statement levels) := by
  induction levels with
  | zero =>
      refine ⟨fun state value later unended given => ?_, fun state value later unended given => ?_⟩
      · exact absurd given gives_tooDeep
      · exact absurd given gives_tooDeep
  | succ levels inductionHypothesis =>
      exact (finishes_statementBody (carriesInside_counting.expression levels) inductionHypothesis seam
        (statement_progresses levels)).nested

theorem finishes_outerStatement (seam : Begins (behind.headD closing)) :
    Finishes behind closing outerStatement := by
  apply finishes_of_current
  · intro token ended state value later given
    rw [beq_iff_eq.mp ended] at given
    exact gives_throw given
  · intro token state value later unended notEmpty
    split
    · exact ((finishes_statement seam maxDepth).carries unended ·)
    · exact fun given => absurd given gives_throw

/-! ### Across the seam -/

/-- Behind the statements of the first program those of the second one are read. -/
theorem repeatWhile_extended (seam : Begins (behind.headD closing)) (ended : closing.isEnd = true)
    {state later done : ParseState} {budget : List Token} {first second : List Statement}
    (unended : Unended state) (enough : state.rest.length ≤ budget.length)
    (firstGiven : (repeatWhile (fun token => !token.isEnd) outerStatement budget).Gives state first later)
    (secondGiven : (many (fun token => !token.isEnd) outerStatement).Gives
      (later.extended behind closing) second done) :
    (many (fun token => !token.isEnd) outerStatement).Gives (state.extended behind closing)
      (first ++ second) done := by
  induction budget generalizing state first with
  | nil =>
      obtain ⟨rfl, rfl⟩ := gives_pure.mp firstGiven
      exact secondGiven
  | cons token budget inductionHypothesis =>
      have unrolled := gives_repeatWhile_cons.mp firstGiven
      split at unrolled
      · rename_i goes
        obtain ⟨head, between, others, headGiven, othersGiven, rfl⟩ := unrolled
        have finishes := finishes_outerStatement seam
        have notEmpty := finishes.needsToken unended headGiven
        obtain ⟨reaches, carried⟩ := finishes.carries unended headGiven
        obtain ⟨_, taken, moves⟩ := outerStatement_progresses unended.closed headGiven
        have shorter := congrArg List.length moves.rest
        rw [List.length_append, List.length_cons] at shorter
        rw [List.length_cons] at enough
        have rest := inductionHypothesis (unended.reaches reaches) (by omega) othersGiven
        rw [← ParseState.current_extended behind closing notEmpty] at goes
        exact outerStatement_progresses.many_cons (fun token ended => by rw [ended]; rfl) ended goes
          carried rest
      · obtain ⟨rfl, rfl⟩ := unrolled
        exact secondGiven

end Parse

namespace Program

variable {first second : List Token} {program next : Program}

/-- The first token of a program begins a statement, unless it is the end. -/
theorem begins_of_ofTokens (read : ofTokens second = .ok program) :
    Parse.Begins (second.headD (ParseState.ofTokens second).closing) := by
  obtain ⟨done, given⟩ := ofTokens_eq_ok_iff.mp read
  obtain ⟨statements, statementsGiven, _⟩ := Parse.gives_map.mp given
  cases second with
  | nil => exact .inl rfl
  | cons token rest =>
      cases ended : token.isEnd with
      | true => exact .inl ended
      | false =>
          have goes : (!(ParseState.ofTokens (token :: rest)).current.isEnd) = true := by
            rw [show (ParseState.ofTokens (token :: rest)).current = token from rfl, ended]
            rfl
          have unrolled := Parse.gives_repeatWhile_cons.mp (Parse.gives_many.mp statementsGiven)
          rw [if_pos goes] at unrolled
          obtain ⟨_, _, _, headGiven, _⟩ := unrolled
          exact .inr (Parse.gives_outerStatement.mp headGiven).1

/-- Where the tokens of a program follow those of another one, the statements do so as well. -/
theorem ofTokens_concat (goesOn : ∀ token ∈ first, token.isEnd = false)
    (firstRead : ofTokens first = .ok program) (secondRead : ofTokens second = .ok next) :
    ofTokens (first ++ second) = .ok ⟨program.statements ++ next.statements⟩ := by
  cases second with
  | nil =>
      cases secondRead
      rw [List.append_nil, List.append_nil]
      exact firstRead
  | cons token rest =>
      have unended : (ParseState.ofTokens first).Unended := ⟨rfl, goesOn⟩
      obtain ⟨later, given⟩ := ofTokens_eq_ok_iff.mp firstRead
      obtain ⟨statements, statementsGiven, rfl⟩ := Parse.gives_map.mp given
      have unendedLater := unended.reaches (Parse.program_goesForward.reaches given)
      have empty : later.rest = [] := unendedLater.isAtEnd_iff.mp (Parse.program_ends rfl given)
      have outermost : later.depth = 0 := Parse.program_keepsDepth.depth given
      -- at the seam only the second program is left
      have left (closing : Token) : (later.extended (token :: rest) closing).rest = token :: rest := by
        rw [ParseState.extended, empty, List.nil_append]
      have asAlone := @ParseState.program_eq_ofTokens
        (later.extended (token :: rest) (ParseState.ofTokens (token :: rest)).closing) rfl outermost
        fun _ => by rw [left]; rfl
      rw [left, secondRead] at asAlone
      obtain ⟨done, nextGiven⟩ := ParseState.program_eq_ok_iff.mp asAlone
      obtain ⟨others, othersGiven, rfl⟩ := Parse.gives_map.mp nextGiven
      have wholeGiven := Parse.repeatWhile_extended (begins_of_ofTokens secondRead) rfl unended
        (Nat.le_refl _) (Parse.gives_many.mp statementsGiven) othersGiven
      rw [ParseState.extended_ofTokens first (List.cons_ne_nil token rest)] at wholeGiven
      exact ofTokens_eq_ok_iff.mpr ⟨done, Parse.gives_map.mpr ⟨_, wholeGiven, rfl⟩⟩

end Program

/-! ### Checking -/

theorem Statement.checkAll_append (widening : Bool) (table : ScopeTable) (first second : List Statement) :
    checkAll widening table (first ++ second) =
      ((checkAll widening (checkAll widening table first).1 second).1,
        (checkAll widening table first).2 ++
          (checkAll widening (checkAll widening table first).1 second).2) := by
  induction first generalizing table with
  | nil => rfl
  | cons statement first inductionHypothesis =>
      rw [List.cons_append, checkAll_cons, inductionHypothesis, checkAll_cons, List.append_assoc]

theorem Analyzer.analyze_append (analyzer : Analyzer) (first second : List Statement) :
    analyzer.analyze ⟨first ++ second⟩ = (analyzer.analyze ⟨first⟩).analyze ⟨second⟩ := by
  simp only [analyze, Statement.checkAll_append, List.append_assoc]

/-- Programs compose. Where the tokens of one program follow those of another one, they are one
program, which has the statements of both with their places, and an analyzer that is given the two
one after the other ends as one that is given the whole. -/
theorem Program.ofTokens_append {first second : List Token} {program next : Program}
    (goesOn : ∀ token ∈ first, token.isEnd = false)
    (firstRead : ofTokens first = .ok program) (secondRead : ofTokens second = .ok next) :
    ∃ whole, ofTokens (first ++ second) = .ok whole ∧
      whole.statements = program.statements ++ next.statements ∧
      ∀ strict, ((Analyzer.initial strict).analyze program).analyze next =
        (Analyzer.initial strict).analyze whole :=
  ⟨_, ofTokens_concat goesOn firstRead secondRead, rfl, fun _ => (Analyzer.analyze_append _ _ _).symm⟩

/-- A conditional without an `else` in front of a block. -/
theorem Program.ofTokens_append_conditional :
    let token (kind : Token.Kind) : Token := ⟨kind, "", .origin⟩
    let first := [token (.keyword .ifWord), token (.symbol .leftParen), token (.keyword .trueWord),
      token (.symbol .rightParen), token (.symbol .semicolon)]
    let second := [token (.symbol .leftBrace), token (.symbol .rightBrace)]
    let conditional := Statement.ifThen (.literal (.bool true) .origin) (.empty .origin)
      (Span.origin.merge .origin)
    let block := Statement.block [] (Span.origin.merge .origin)
    (∀ token ∈ first, token.isEnd = false) ∧ ofTokens first = .ok ⟨[conditional]⟩ ∧
      ofTokens second = .ok ⟨[block]⟩ ∧
      ∃ whole, ofTokens (first ++ second) = .ok whole ∧ whole.statements = [conditional, block] ∧
        ∀ strict, ((Analyzer.initial strict).analyze ⟨[conditional]⟩).analyze ⟨[block]⟩ =
          (Analyzer.initial strict).analyze whole := by
  intro token first second conditional block
  have goesOn : ∀ token ∈ first, token.isEnd = false := by decide
  have firstRead : ofTokens first = .ok ⟨[conditional]⟩ := rfl
  have secondRead : ofTokens second = .ok ⟨[block]⟩ := rfl
  exact ⟨goesOn, firstRead, secondRead, ofTokens_append goesOn firstRead secondRead⟩

end StagedAnalysis
