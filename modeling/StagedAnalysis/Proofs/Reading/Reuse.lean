import StagedAnalysis.Proofs.Reading.EndOfInput
/-!
Reading again where an earlier reading has stopped.

A reading that has stopped leaves a state behind it: what was taken last, how many operators were
counted, and how deep it was. The next reading does not notice. A statement begins with a token of its
own, so it does not look at what was taken before; its expressions start a count of their own; and all
levels are left again, unless no level was left to enter. So the next reading is one of the rest of
the input and of nothing else.
-/
namespace StagedAnalysis

/-! ### What was counted before -/

namespace ParseState

variable {first second : ParseState}

structure CountedApart (first second : ParseState) : Prop where
  closed : first.closing.isEnd = true
  uncounted : first.uncounted = second.uncounted

theorem uncounted_advance (state : ParseState) :
    state.uncounted.advance = state.advance.uncounted := by
  rcases state with ⟨rest, previous, depth, operators, closing⟩
  cases rest with
  | nil => rfl
  | cons token rest => cases ended : token.isEnd <;> simp [uncounted, advance, ended]

theorem CountedApart.current (apart : CountedApart first second) : first.current = second.current :=
  (congrArg ParseState.current apart.uncounted :)

def sameStatement : Likeness where
  alike := CountedApart
  closed apart := ⟨apart.closed,
    (congrArg (·.closing.isEnd) apart.uncounted).symm.trans apart.closed⟩
  current := CountedApart.current
  advance {first second} apart :=
    ⟨first.advance_closing ▸ apart.closed, by
      rw [← uncounted_advance, ← uncounted_advance, apart.uncounted]⟩
  previous apart := (congrArg ParseState.previous apart.uncounted :)
  depth apart := (congrArg ParseState.depth apart.uncounted :)
  atDepth apart depth :=
    ⟨apart.closed, congrArg (fun state => { state with depth := depth }) apart.uncounted⟩

end ParseState

namespace Parse

open ParseState (sameStatement)

/-- A complete expression starts its own count, so two states become one. -/
theorem expression_sameStatement (levels : Nat) : Congruent sameStatement (expression levels) := by
  intro first second apart
  have same : (expression levels).run first = (expression levels).run second := by
    change (nestedExpression levels).run first.uncounted = (nestedExpression levels).run second.uncounted
    rw [apart.uncounted]
  obtain ⟨taken, moves⟩ := goesForward_counting.expression levels second
  rw [same]
  have closed (later : ParseState) (kept : later.closing = second.closing) :
      later.closing.isEnd = true :=
    kept ▸ (sameStatement.closed apart).2
  cases outcome : (expression levels).run second with
  | ok value later =>
      rw [outcome] at moves
      exact .ok value ⟨closed later moves.closing, rfl⟩
  | error error stopped =>
      rw [outcome] at moves
      exact .error error ⟨closed stopped moves.closing, rfl⟩

/-- Reading a program does not depend on what was counted before. -/
theorem program_sameStatement : Congruent sameStatement program :=
  (congruent_compositional sameStatement).program expression_sameStatement

end Parse

/-! ### What was taken before -/

namespace Parse

variable {α β : Type}

inductive Agrees : Outcome α → Outcome α → Prop
  | ok (value : α) (later : ParseState) : Agrees (.ok value later) (.ok value later)
  | error (error : AnalysisError) (stopped other : ParseState) :
      Agrees (.error error stopped) (.error error other)

/-- In front of the end of the input, the step does not look at what was taken before. -/
def LooksAhead (step : Parse α) : Prop :=
  ∀ (state : ParseState) (previous : Span), state.closing.isEnd = true → state.isAtEnd = false →
    Agrees (step.run { state with previous := previous }) (step.run state)

theorem Agrees.result {outcome other : Outcome α} (agrees : Agrees outcome other) :
    outcome.result = other.result := by
  cases agrees <;> rfl

theorem Agrees.mapState {outcome other : Outcome α} (agrees : Agrees outcome other)
    (change : ParseState → ParseState) : Agrees (outcome.mapState change) (other.mapState change) := by
  cases agrees with
  | ok value later => exact .ok value (change later)
  | error error stopped other => exact .error error (change stopped) (change other)

/-- Only the first of several steps could look behind. -/
theorem LooksAhead.bind {step : Parse α} {next : α → Parse β} (first : LooksAhead step) :
    LooksAhead (step >>= next) := by
  intro state previous closed goesOn
  rw [EStateM.run_bind, EStateM.run_bind]
  have agrees := first state previous closed goesOn
  generalize step.run { state with previous := previous } = outcome at agrees ⊢
  generalize step.run state = other at agrees ⊢
  cases agrees with
  | error error stopped other => exact .error error stopped other
  | ok value later =>
      dsimp only
      cases (next value).run later with
      | ok result done => exact .ok result done
      | error error stopped => exact .error error stopped stopped

theorem looksAhead_throw (error : AnalysisError) : LooksAhead (throw error : Parse α) :=
  fun _ _ _ _ => .error error _ _

theorem looksAhead_current {next : Token → Parse α} (each : ∀ token, LooksAhead (next token)) :
    LooksAhead (current >>= next) :=
  fun state previous closed goesOn => each state.current state previous closed goesOn

theorem LooksAhead.ite {condition : Prop} [Decidable condition] {first second : Parse α}
    (firstLooks : LooksAhead first) (secondLooks : LooksAhead second) :
    LooksAhead (if condition then first else second) := by
  split
  · exact firstLooks
  · exact secondLooks

theorem looksAhead_tooDeep : LooksAhead (tooDeep : Parse α) :=
  fun _ _ _ _ => .error _ _ _

theorem looksAhead_unexpected (expected : String) : LooksAhead (unexpected expected : Parse α) :=
  looksAhead_current fun _ => looksAhead_throw _

/-- What is taken replaces what was taken before. -/
theorem looksAhead_advance : LooksAhead advance := by
  intro state previous closed goesOn
  rcases state with ⟨rest, last, depth, operators, closing⟩
  have same : ParseState.advance ⟨rest, previous, depth, operators, closing⟩ =
      ParseState.advance ⟨rest, last, depth, operators, closing⟩ := by
    cases rest with
    | nil =>
        have ended : false = true := goesOn.symm.trans closed
        cases ended
    | cons token rest =>
        have inside : token.isEnd = false := goesOn
        simp [ParseState.advance, inside]
  change Agrees (.ok _ (ParseState.advance ⟨rest, previous, depth, operators, closing⟩)) _
  rw [same]
  exact .ok _ _

theorem looksAhead_expect (symbol : Symbol) : LooksAhead (expect symbol) :=
  looksAhead_current fun _ => looksAhead_advance.ite (looksAhead_unexpected _)

theorem looksAhead_identifier : LooksAhead identifier := by
  apply looksAhead_current
  intro token
  split
  · exact looksAhead_advance.bind
  · exact looksAhead_throw _

theorem LooksAhead.nested {step : Parse α} (inner : LooksAhead step) :
    LooksAhead fun state => nested step state := by
  intro state previous closed goesOn
  rw [run_nested, run_nested]
  by_cases fits : state.depth < maxDepth
  · rw [if_pos fits, if_pos fits]
    exact (inner state.entered previous closed goesOn).mapState _
  · rw [if_neg fits, if_neg fits]
    exact looksAhead_tooDeep state previous closed goesOn

/-- Every form of a statement begins with a token. -/
theorem looksAhead_statementBody (statement : Parse Statement) (expression : Parse Expression) :
    LooksAhead (statementBody statement expression) := by
  apply looksAhead_current
  intro token
  split
  · split
    · exact looksAhead_advance.bind.bind
    · split
      · exact looksAhead_advance.bind
      · exact looksAhead_advance.bind
      · exact looksAhead_advance.bind
      · exact looksAhead_advance.bind
      · exact looksAhead_unexpected _
  · exact looksAhead_identifier.bind.bind
  · exact (looksAhead_expect _).bind
  · exact looksAhead_advance.bind
  · exact looksAhead_unexpected _

theorem looksAhead_statement (levels : Nat) : LooksAhead (statement levels) := by
  cases levels with
  | zero => exact looksAhead_tooDeep
  | succ levels => exact (looksAhead_statementBody _ _).nested

theorem looksAhead_outerStatement : LooksAhead outerStatement :=
  looksAhead_current fun _ => (looksAhead_statement _).ite (looksAhead_throw _)

theorem looksAhead_many {step : Parse α} (each : LooksAhead step) :
    LooksAhead (many (fun token => !token.isEnd) step) := by
  intro state previous closed goesOn
  rcases state with ⟨rest, last, depth, operators, closing⟩
  cases rest with
  | nil =>
      have ended : false = true := goesOn.symm.trans closed
      cases ended
  | cons token rest =>
      have goes : (!token.isEnd) = true := by
        rw [show token.isEnd = false from goesOn]
        rfl
      -- the budget is the same in both states
      have unrolled (last : Span) := @repeatWhile_of_goesOn _ step (fun token => !token.isEnd)
        ⟨token :: rest, last, depth, operators, closing⟩ goes token rest
      change Agrees (repeatWhile (fun token => !token.isEnd) step (token :: rest) _)
        (repeatWhile (fun token => !token.isEnd) step (token :: rest) _)
      rw [unrolled, unrolled]
      exact each.bind _ previous closed goesOn

/-- A program is read up to the end. -/
theorem program_ends {state later : ParseState} {result : Program} (closed : state.closing.isEnd = true)
    (given : program.Gives state result later) : later.isAtEnd = true := by
  obtain ⟨body, bodyGiven, _⟩ := gives_map.mp given
  have stopped := outerStatement_progresses.repeatWhile_stops
    (fun token ended => by rw [ended]; rfl) closed (Nat.le_refl _) (gives_many.mp bodyGiven)
  exact (by simpa using stopped : later.current.isEnd = true)

theorem looksAhead_program : LooksAhead program :=
  (looksAhead_many looksAhead_outerStatement).bind

end Parse

/-! ### The next reading -/

namespace ParseState

variable {state : ParseState}

/-- At the end of the input there is the empty program, and nothing is taken. -/
theorem program_of_isAtEnd (ended : state.isAtEnd = true) : state.program = (.ok ⟨[]⟩, state) := by
  have stops : (!state.current.isEnd) = false := by
    rw [← isAtEnd, ended]
    rfl
  have none : (Parse.many (fun token => !token.isEnd) Parse.outerStatement).run state = .ok [] state :=
    Parse.repeatWhile_of_stops stops state.rest
  have read : Parse.program.run state = .ok ⟨[]⟩ state := by
    rw [Parse.program, EStateM.run_bind, none]
    rfl
  unfold program
  rw [show Parse.program state = _ from read]

/-- What was taken before does not matter. -/
theorem program_previous (state : ParseState) (closed : state.closing.isEnd = true)
    (previous : Span) : { state with previous := previous }.program.1 = state.program.1 := by
  cases goesOn : state.isAtEnd with
  | true =>
      have otherEnded : isAtEnd { state with previous := previous } = true := goesOn
      rw [program_of_isAtEnd goesOn, program_of_isAtEnd otherEnded]
  | false =>
      rw [program_result, program_result]
      exact (Parse.looksAhead_program state previous closed goesOn).result

/-- How many operators were counted before does not matter. -/
theorem program_uncounted (closed : state.closing.isEnd = true) :
    state.uncounted.program.1 = state.program.1 := by
  rw [program_result, program_result]
  have apart : CountedApart state.uncounted state := ⟨closed, rfl⟩
  exact (Parse.program_sameStatement apart).result

/-- The end of a rest of the input is the end of the input. -/
theorem closing_ofTokens_append (taken : List Token) {rest : List Token} (notEmpty : rest ≠ []) :
    (ofTokens (taken ++ rest)).closing = (ofTokens rest).closing := by
  change Token.closing (Program.endOf (taken ++ rest)) = Token.closing (Program.endOf rest)
  unfold Program.endOf
  rw [List.getLast?_append, List.getLast?_eq_some_getLast notEmpty]
  rfl

/-- Reading on from a state on the outermost level is reading what is left. -/
theorem program_eq_ofTokens (closed : state.closing.isEnd = true) (outermost : state.depth = 0)
    (sameEnd : state.rest ≠ [] → state.closing = (ofTokens state.rest).closing) :
    state.program.1 = Program.ofTokens state.rest := by
  rcases state with ⟨rest, previous, depth, operators, closing⟩
  cases rest with
  | nil =>
      have ended : isAtEnd ⟨[], previous, depth, operators, closing⟩ = true := closed
      rw [program_of_isAtEnd ended]
      rfl
  | cons token rest =>
      have sameClosing : closing = (ofTokens (token :: rest)).closing := sameEnd (List.cons_ne_nil _ _)
      have sameDepth : depth = 0 := outermost
      subst sameDepth sameClosing
      rw [← program_uncounted closed]
      exact (program_previous (uncounted ⟨token :: rest, previous, 0, operators, _⟩) closed .origin).symm

def afterCalls (state : ParseState) : Nat → ParseState
  | 0 => state
  | calls + 1 => (state.afterCalls calls).program.2

/-- A call moves on over tokens in front of the end, also when it fails. -/
theorem program_reaches (state : ParseState) : state.Reaches state.program.2 := by
  rw [program_state]
  exact Parse.program_goesForward state

theorem afterCalls_reaches (state : ParseState) (calls : Nat) :
    state.Reaches (state.afterCalls calls) := by
  induction calls with
  | zero => exact .refl state
  | succ calls inductionHypothesis => exact inductionHypothesis.trans (program_reaches _)

/-- A call ends on the level that it began on, unless no level was left. -/
theorem program_depth (levelLeft : ∀ limit place,
    state.program.1 ≠ .error (.nestingTooDeep limit place)) :
    state.program.2.depth = state.depth := by
  rw [program_result] at levelLeft
  rw [program_state]
  apply Parse.program_keepsDepth state
  cases outcome : Parse.program.run state with
  | ok program later => rfl
  | error error stopped =>
      cases error with
      | nestingTooDeep limit place =>
          rw [outcome] at levelLeft
          exact absurd rfl (levelLeft limit place)
      | _ => rfl

theorem afterCalls_depth {calls : Nat} (levelsLeft : ∀ earlier < calls, ∀ limit place,
    (state.afterCalls earlier).program.1 ≠ .error (.nestingTooDeep limit place)) :
    (state.afterCalls calls).depth = state.depth := by
  induction calls with
  | zero => rfl
  | succ calls inductionHypothesis =>
      have before := inductionHypothesis fun earlier smaller =>
        levelsLeft earlier (Nat.lt_succ_of_lt smaller)
      exact (program_depth (levelsLeft calls (Nat.lt_succ_self calls))).trans before

/-- A call that succeeds has read everything in front of the end. -/
theorem program_isAtEnd {program : Program} (closed : state.closing.isEnd = true)
    (succeeded : state.program.1 = .ok program) : state.program.2.isAtEnd = true := by
  obtain ⟨later, given⟩ := program_eq_ok_iff.mp succeeded
  rw [program_state, show Parse.program.run state = .ok program later from given]
  exact Parse.program_ends closed given

theorem afterCalls_closed (calls : Nat) (closed : state.closing.isEnd = true) :
    (state.afterCalls calls).closing.isEnd = true := by
  obtain ⟨taken, moves⟩ := state.afterCalls_reaches calls
  rw [moves.closing]
  exact closed

/-- Where the end of the input is reached, further calls stay. -/
theorem afterCalls_isAtEnd {calls later : Nat} (notBefore : calls ≤ later)
    (ended : (state.afterCalls calls).isAtEnd = true) : (state.afterCalls later).isAtEnd = true := by
  obtain ⟨further, rfl⟩ := Nat.exists_eq_add_of_le notBefore
  induction further with
  | zero => exact ended
  | succ further inductionHypothesis =>
      have inductionHypothesis := inductionHypothesis (Nat.le_add_right calls further)
      rw [← Nat.add_assoc]
      rw [afterCalls, program_of_isAtEnd inductionHypothesis]
      exact inductionHypothesis

/-- The next call of a reader that was called before reads what is left as if it were all of the
input, unless an earlier call ran out of levels. No call moves back or past the first end of the
input, and after a call that succeeded every call reads the empty program. -/
theorem afterCalls_ofTokens (tokens : List Token) (calls : Nat) :
    ((∀ earlier < calls, ∀ limit place,
        ((ofTokens tokens).afterCalls earlier).program.1 ≠ .error (.nestingTooDeep limit place)) →
      ((ofTokens tokens).afterCalls calls).program.1 =
        Program.ofTokens ((ofTokens tokens).afterCalls calls).rest) ∧
    (∃ taken, tokens = taken ++ ((ofTokens tokens).afterCalls calls).rest ∧
      ∀ token ∈ taken, token.isEnd = false) ∧
    ((ofTokens tokens).afterCalls (calls + 1)).rest <:+ ((ofTokens tokens).afterCalls calls).rest ∧
    ((∃ earlier < calls, ∃ program, ((ofTokens tokens).afterCalls earlier).program.1 = .ok program) →
      ((ofTokens tokens).afterCalls calls).program.1 = .ok ⟨[]⟩) := by
  have closed (calls : Nat) : ((ofTokens tokens).afterCalls calls).closing.isEnd = true :=
    afterCalls_closed calls rfl
  obtain ⟨taken, moves⟩ := (ofTokens tokens).afterCalls_reaches calls
  have split : tokens = taken ++ ((ofTokens tokens).afterCalls calls).rest := moves.rest
  refine ⟨?_, ⟨taken, split, moves.goesOn⟩, ?_, ?_⟩
  · intro levelsLeft
    apply program_eq_ofTokens (closed calls) (afterCalls_depth levelsLeft)
    intro notEmpty
    rw [moves.closing, ← closing_ofTokens_append taken notEmpty, ← split]
  · obtain ⟨others, further⟩ := program_reaches ((ofTokens tokens).afterCalls calls)
    exact ⟨others, further.rest.symm⟩
  · intro succeeded
    obtain ⟨earlier, smaller, program, success⟩ := succeeded
    have ended := afterCalls_isAtEnd (Nat.succ_le_of_lt smaller)
      (program_isAtEnd (closed earlier) success)
    rw [program_of_isAtEnd ended]

/-- Behind a type too many, a declaration is read as if nothing stood in front of it. -/
theorem afterCalls_ofTokens_declaration :
    let token (kind : Token.Kind) : Token := ⟨kind, "", .origin⟩
    let declaration := [token (.keyword .intWord), token (.identifier "x"), token (.symbol .semicolon)]
    let state := ofTokens (token (.keyword .intWord) :: declaration)
    state.program.1 = .error (.expectedIdentifier (token (.keyword .intWord)).description .origin) ∧
      (state.afterCalls 1).program.1 = Program.ofTokens declaration ∧
      (state.afterCalls 1).program.1 =
        .ok ⟨[.declaration ⟨.int, ⟨"x", .origin⟩, none, Span.origin.merge .origin⟩]⟩ ∧
      (state.afterCalls 2).program.1 = .ok ⟨[]⟩ := by
  intro token declaration state
  have refused : state.program.1 =
      .error (.expectedIdentifier (token (.keyword .intWord)).description .origin) := rfl
  have read : (state.afterCalls 1).program.1 =
      .ok ⟨[.declaration ⟨.int, ⟨"x", .origin⟩, none, Span.origin.merge .origin⟩]⟩ := rfl
  refine ⟨refused, ?_, read, ?_⟩
  · apply (afterCalls_ofTokens (token (.keyword .intWord) :: declaration) 1).1
    intro earlier first limit place
    rw [Nat.lt_one_iff.mp first]
    intro tooDeep
    cases refused.symm.trans tooDeep
  · apply (afterCalls_ofTokens (token (.keyword .intWord) :: declaration) 2).2.2.2
    exact ⟨1, Nat.one_lt_two, _, read⟩

end ParseState

end StagedAnalysis
