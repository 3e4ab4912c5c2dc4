import StagedAnalysis.Proofs.Prefixes.Phrases
import StagedAnalysis.Proofs.Reading.Steps
/-!
Steps that read a language with one token of foresight.

A step predicts a language if it stops behind a word that is settled by the token it stops in front
of, and, where it fails other than by a limit, behind a word that is refused by that token. Each
building block of the reader predicts a language, and what is built of such blocks predicts the row or
the choice of theirs. None of them speaks of input behind a program; only the reader of whole programs
does.
-/
namespace StagedAnalysis

open Token (Kind)
open Phrases

def AnalysisError.exceedsLimit : AnalysisError → Bool
  | nestingTooDeep _ _ | expressionTooLong _ _ => true
  | _ => false

def AnalysisError.isTrailing : AnalysisError → Bool
  | trailingInput _ _ => true
  | _ => false

namespace ParseState

variable {state between later : ParseState} {taken others : List Token} {kind : Kind}

structure Moves (taken : List Token) (state later : ParseState) : Prop where
  rest : state.rest = taken ++ later.rest
  goesOn : ∀ token ∈ taken, token.isEnd = false
  closing : later.closing = state.closing

theorem Moves.refl (state : ParseState) : Moves [] state state :=
  ⟨rfl, List.forall_mem_nil _, rfl⟩

theorem Moves.trans (first : Moves taken state between) (rest : Moves others between later) :
    Moves (taken ++ others) state later where
  rest := by rw [first.rest, rest.rest, List.append_assoc]
  goesOn := List.forall_mem_append.mpr ⟨first.goesOn, rest.goesOn⟩
  closing := rest.closing.trans first.closing

/-- The kinds of the tokens that were moved over are what is no longer ahead. -/
theorem Moves.ahead (moves : Moves taken state later) :
    state.ahead = taken.map (·.kind) ++ later.ahead := by
  rw [ParseState.ahead, moves.rest,
    List.takeWhile_append_of_pos fun token member => by simp [moves.goesOn token member],
    List.map_append]
  rfl

/-- What comes next is the first token that is taken, if there is one. -/
theorem Moves.head (moves : Moves taken state later) :
    (taken.map (·.kind)).headD later.current.kind = state.current.kind := by
  rw [current, current, moves.rest, moves.closing]
  cases taken <;> rfl

theorem moves_advance (closed : state.closing.isEnd = true) (seen : state.current.kind = kind)
    (goesOn : kind ≠ .endOfInput) : Moves [state.current] state state.advance := by
  have inside : state.current.isEnd = false := by
    rw [Token.isEnd, seen]
    exact beq_eq_false_iff_ne.mpr goesOn
  rcases state with ⟨rest, previous, depth, operators, closing⟩
  cases rest with
  | nil =>
      rw [show ParseState.current _ = closing from rfl, closed] at inside
      cases inside
  | cons token rest =>
      have tokenInside : token.isEnd = false := inside
      refine ⟨?_, List.forall_mem_singleton.mpr inside, ?_⟩
      · rw [advance_rest rfl tokenInside]
        rfl
      · exact advance_closing _

end ParseState

namespace Parse

open ParseState (Moves)

variable {α β : Type} {state between later stopped : ParseState} {phrases first rest : Phrases}
  {error : AnalysisError} {kind : Kind}

def Fails (step : Parse α) (state : ParseState) (error : AnalysisError) (stopped : ParseState) :
    Prop :=
  step.run state = .error error stopped

structure Predicts (phrases : Phrases) (step : Parse α) (state : ParseState) : Prop where
  reads : ∀ {value later}, step.Gives state value later →
    ∃ taken, Moves taken state later ∧
      Settles phrases (taken.map (·.kind)) later.current.kind
  refuses : ∀ {error stopped}, step.Fails state error stopped → error.exceedsLimit = false →
    error.isTrailing = false ∧ ∃ taken, Moves taken state stopped ∧
      Refuses phrases (taken.map (·.kind)) stopped.current.kind

def Foresees (phrases : Phrases) (step : Parse α) : Prop :=
  ∀ state : ParseState, state.closing.isEnd = true → Predicts phrases step state

def Quiet (step : Parse α) : Prop :=
  ∀ state, ∃ value, step.run state = .ok value state

theorem fails_bind {step : Parse α} {next : α → Parse β} :
    (step >>= next).Fails state error stopped ↔
      step.Fails state error stopped ∨
        ∃ value between, step.Gives state value between ∧ (next value).Fails between error stopped := by
  simp only [Fails, Gives, EStateM.run_bind]
  cases step.run state with
  | ok value between =>
      constructor
      · intro failed
        exact .inr ⟨value, between, rfl, failed⟩
      · rintro (failed | ⟨_, _, same, failed⟩)
        · cases failed
        · cases same
          exact failed
  | error earlier between => simp

/-! ### Rows -/

theorem Predicts.of_agree {step : Parse α} {wide : Phrases} (predicts : Predicts phrases step state)
    (agree : AgreeAt state.current.kind phrases wide) : Predicts wide step state where
  reads := by
    intro value later given
    obtain ⟨taken, moves, settles⟩ := predicts.reads given
    exact ⟨taken, moves, settles.of_agree (moves.head ▸ agree)⟩
  refuses := by
    intro error stopped failed limited
    obtain ⟨inside, taken, moves, refuses⟩ := predicts.refuses failed limited
    exact ⟨inside, taken, moves, refuses.of_agree (moves.head ▸ agree)⟩

/-- The rest may depend on what the step took. -/
theorem Predicts.bind_moves {step : Parse α} {next : α → Parse β}
    (predicts : Predicts first step state) (meets : Meets first rest)
    (others : ∀ value {between taken}, Moves taken state between →
      Settles first (taken.map (·.kind)) between.current.kind →
      Predicts rest (next value) between) :
    Predicts (first.followedBy rest) (step >>= next) state where
  reads := by
    intro result later given
    obtain ⟨value, between, stepGiven, restGiven⟩ := gives_bind.mp given
    obtain ⟨taken, moves, settles⟩ := predicts.reads stepGiven
    obtain ⟨left, restMoves, restSettles⟩ := (others value moves settles).reads restGiven
    refine ⟨taken ++ left, moves.trans restMoves, ?_⟩
    rw [List.map_append]
    rw [← restMoves.head] at settles
    exact settles.followedBy restSettles
  refuses := by
    intro error stopped failed limited
    rcases fails_bind.mp failed with stepFailed | ⟨value, between, stepGiven, restFailed⟩
    · obtain ⟨inside, taken, moves, refuses⟩ := predicts.refuses stepFailed limited
      exact ⟨inside, taken, moves, refuses.followedBy_left meets⟩
    · obtain ⟨taken, moves, settles⟩ := predicts.reads stepGiven
      obtain ⟨inside, left, restMoves, restRefuses⟩ :=
        (others value moves settles).refuses restFailed limited
      refine ⟨inside, taken ++ left, moves.trans restMoves, ?_⟩
      rw [List.map_append]
      rw [← restMoves.head] at settles
      exact restRefuses.followedBy_right settles meets

theorem Predicts.bind {step : Parse α} {next : α → Parse β} (predicts : Predicts first step state)
    (closed : state.closing.isEnd = true) (meets : Meets first rest)
    (others : ∀ value, Foresees rest (next value)) :
    Predicts (first.followedBy rest) (step >>= next) state :=
  predicts.bind_moves meets fun value between _ moves _ =>
    others value between (moves.closing ▸ closed)

theorem Foresees.bind {step : Parse α} {next : α → Parse β} (foresees : Foresees first step)
    (meets : Meets first rest) (others : ∀ value, Foresees rest (next value)) :
    Foresees (first.followedBy rest) (step >>= next) :=
  fun state closed => (foresees state closed).bind closed meets others

/-- What is done with the result of a step changes nothing. -/
theorem Predicts.bind_quiet {step : Parse α} {next : α → Parse β}
    (predicts : Predicts phrases step state) (quiet : ∀ value, Quiet (next value)) :
    Predicts phrases (step >>= next) state where
  reads := by
    intro result later given
    obtain ⟨value, between, stepGiven, restGiven⟩ := gives_bind.mp given
    obtain ⟨last, same⟩ := quiet value between
    rw [Gives, same] at restGiven
    cases restGiven
    exact predicts.reads stepGiven
  refuses := by
    intro error stopped failed limited
    rcases fails_bind.mp failed with stepFailed | ⟨value, between, stepGiven, restFailed⟩
    · exact predicts.refuses stepFailed limited
    · obtain ⟨last, same⟩ := quiet value between
      rw [Fails, same] at restFailed
      cases restFailed

theorem Foresees.bind_quiet {step : Parse α} {next : α → Parse β} (foresees : Foresees phrases step)
    (quiet : ∀ value, Quiet (next value)) : Foresees phrases (step >>= next) :=
  fun state closed => (foresees state closed).bind_quiet quiet

/-- Nothing is taken by a step that only counts. It fails only by a limit. -/
theorem Predicts.skip {step : Parse α} {next : α → Parse β}
    (still : ∀ {value between}, step.Gives state value between →
      Moves [] state between ∧ Predicts phrases (next value) between)
    (limited : ∀ {error stopped}, step.Fails state error stopped → error.exceedsLimit = true) :
    Predicts phrases (step >>= next) state where
  reads := by
    intro result later given
    obtain ⟨value, between, stepGiven, restGiven⟩ := gives_bind.mp given
    obtain ⟨moves, predicts⟩ := still stepGiven
    obtain ⟨taken, restMoves, settles⟩ := predicts.reads restGiven
    exact ⟨taken, moves.trans restMoves, settles⟩
  refuses := by
    intro error stopped failed within
    rcases fails_bind.mp failed with stepFailed | ⟨value, between, stepGiven, restFailed⟩
    · rw [limited stepFailed] at within
      cases within
    · obtain ⟨moves, predicts⟩ := still stepGiven
      obtain ⟨inside, taken, restMoves, refuses⟩ := predicts.refuses restFailed within
      exact ⟨inside, taken, moves.trans restMoves, refuses⟩

/-- What comes next can be looked at before it is read. -/
theorem predicts_current {next : Token → Parse β}
    (predicts : Predicts phrases (next state.current) state) :
    Predicts phrases (current >>= next) state :=
  ⟨predicts.reads, predicts.refuses⟩

theorem Predicts.ite {condition : Prop} [Decidable condition] {step other : Parse α}
    (holds : condition → Predicts phrases step state)
    (fails : ¬condition → Predicts phrases other state) :
    Predicts phrases (if condition then step else other) state := by
  split
  · exact holds ‹_›
  · exact fails ‹_›

/-! ### Single steps -/

theorem quiet_pure (value : α) : Quiet (pure value : Parse α) :=
  fun _ => ⟨value, rfl⟩

theorem quiet_previous (make : Span → α) :
    Quiet (previous >>= fun place => pure (make place) : Parse α) :=
  fun state => ⟨make state.previous, rfl⟩

theorem Quiet.predicts {step : Parse α} (quiet : Quiet step)
    (settles : Settles phrases [] state.current.kind) : Predicts phrases step state where
  reads := by
    intro result later given
    obtain ⟨value, same⟩ := quiet state
    rw [Gives, same] at given
    cases given
    exact ⟨[], .refl state, settles⟩
  refuses := by
    intro error stopped failed
    obtain ⟨value, same⟩ := quiet state
    rw [Fails, same] at failed
    cases failed

theorem predicts_throw (inside : error.isTrailing = false)
    (refuses : Refuses phrases [] state.current.kind) :
    Predicts phrases (throw error : Parse α) state where
  reads given := absurd given gives_throw
  refuses := by
    intro fault stopped failed limited
    cases failed
    exact ⟨inside, [], .refl state, refuses⟩

theorem predicts_unexpected (expected : String) (refuses : Refuses phrases [] state.current.kind) :
    Predicts phrases (unexpected expected : Parse α) state :=
  predicts_current (predicts_throw rfl refuses)

theorem predicts_tooDeep : Predicts phrases (tooDeep : Parse α) state where
  reads given := absurd given gives_tooDeep
  refuses := by
    intro error stopped failed limited
    cases failed
    cases limited

theorem predicts_tooLong : Predicts phrases (tooLong : Parse α) state where
  reads given := absurd given gives_tooLong
  refuses := by
    intro error stopped failed limited
    cases failed
    cases limited

theorem predicts_advance (closed : state.closing.isEnd = true) (seen : state.current.kind = kind)
    (goesOn : kind ≠ .endOfInput) : Predicts (only kind) advance state where
  reads := by
    intro token later given
    obtain ⟨_, rfl⟩ := gives_advance.mp given
    refine ⟨[state.current], ParseState.moves_advance closed seen goesOn, ?_⟩
    rw [List.map_singleton, seen]
    exact settles_only kind _
  refuses := by
    intro error stopped failed
    cases failed

theorem foresees_expectAs (symbol : Symbol) (expected : String) :
    Foresees (only (.symbol symbol)) (expectAs symbol expected) := by
  intro state closed
  refine predicts_current (.ite (fun seen => ?_) fun differs => ?_)
  · exact predicts_advance closed seen (by simp)
  · refine predicts_unexpected expected (refuses_nil [.symbol symbol] .endOfInput rfl ?_)
    rintro word behind rfl isNext
    exact differs isNext.symm

theorem foresees_expect (symbol : Symbol) : Foresees (only (.symbol symbol)) (expect symbol) :=
  foresees_expectAs symbol _

/-- A token that is taken if it comes next decides how to go on. -/
theorem foresees_accept {step other : Parse α} (goesOn : kind ≠ .endOfInput)
    (foresees : Foresees first step) (meets : Meets (only kind) first)
    (differs : rest.Begins (· ≠ kind))
    (otherPredicts : ∀ state : ParseState, state.closing.isEnd = true → state.current.kind ≠ kind →
      Predicts rest other state) :
    Foresees (((only kind).followedBy first).or rest)
      (accept kind >>= fun taken => if taken then step else other) := by
  intro state closed
  rw [accept, bind_assoc]
  refine predicts_current ?_
  by_cases seen : state.current.kind = kind
  · have row : Predicts ((only kind).followedBy first) (advance >>= fun _ => step) state :=
      (predicts_advance closed seen goesOn).bind closed meets fun _ => foresees
    rw [if_pos seen, bind_assoc]
    refine row.of_agree ?_
    rw [seen]
    exact agree_or_left differs
  · rw [if_neg seen, pure_bind]
    refine (otherPredicts state closed seen).of_agree (agree_or_right ?_)
    rintro word behind stands
    rw [(begins_only kind).followedBy word behind stands]
    exact fun same => seen same.symm

/-- A step one level further in reads the same language. -/
theorem predicts_nested {step : Parse α} (predicts : Predicts phrases step state.entered) :
    Predicts phrases (fun state => nested step state) state where
  reads := by
    intro value later given
    obtain ⟨_, inside, stepGiven, rfl⟩ := gives_nested.mp given
    obtain ⟨taken, moves, settles⟩ := predicts.reads stepGiven
    exact ⟨taken, ⟨moves.rest, moves.goesOn, moves.closing⟩, settles⟩
  refuses := by
    intro error stopped failed limited
    unfold Fails EStateM.run nested enter at failed
    by_cases fits : state.depth < maxDepth
    · simp only [fits, if_true] at failed
      split at failed
      · cases failed
      · rename_i inner between stepFailed
        cases failed
        obtain ⟨inside, taken, moves, refuses⟩ := predicts.refuses stepFailed limited
        exact ⟨inside, taken, ⟨moves.rest, moves.goesOn, moves.closing⟩, refuses⟩
    · simp only [fits, if_false] at failed
      cases failed
      cases limited

/-! ### Repetition -/

/-- Where a closing kind comes next, nothing more is read. -/
theorem predicts_many_nil {closes : Kind → Prop} (closed : closes state.current.kind)
    (begins : phrases.Begins (¬closes ·)) (value : α) :
    Predicts (Many phrases closes) (pure value : Parse α) state :=
  ((quiet_pure value).predicts (settles_nothing closed)).of_agree (agree_many_nil closed begins)

/-- A step that takes something is repeated until a closing kind comes next. The tokens that are left
are budget enough, since the end of the input closes as well. -/
theorem repeatWhile_predicts {goesOn : Token → Bool} {step : Parse α} {closes : Kind → Prop}
    (decides : ∀ token, goesOn token = true ↔ ¬closes token.kind) (ended : closes .endOfInput)
    (begins : phrases.Begins (¬closes ·)) (notEmpty : ∀ behind, ¬phrases [] behind)
    (meets : Meets phrases (Many phrases closes)) (foresees : Foresees phrases step)
    (budget : List Token) (closed : state.closing.isEnd = true)
    (enough : state.rest.length ≤ budget.length) :
    Predicts (Many phrases closes) (repeatWhile goesOn step budget) state := by
  induction budget generalizing state with
  | nil =>
      rcases state with ⟨rest, previous, depth, operators, closing⟩
      obtain rfl : rest = [] := List.eq_nil_of_length_eq_zero (Nat.le_zero.mp enough)
      refine predicts_many_nil ?_ begins []
      have isEnd : closing.kind = .endOfInput := beq_iff_eq.mp closed
      exact isEnd ▸ ended
  | cons token budget inductionHypothesis =>
      refine predicts_current (.ite (fun more => ?_) fun stop => ?_)
      · have opened := (decides _).mp more
        refine Predicts.of_agree ?_ (agree_many_cons opened)
        refine (foresees state closed).bind_moves meets fun value between taken moves settles => ?_
        refine Predicts.bind_quiet (inductionHypothesis (moves.closing ▸ closed) ?_) fun others =>
          fun last => ⟨value :: others, rfl⟩
        have positive : taken ≠ [] := by
          rintro rfl
          exact notEmpty _ settles.phrase
        have shorter := List.length_pos_iff.mpr positive
        rw [moves.rest, List.length_append, List.length_cons] at enough
        omega
      · have close : closes state.current.kind :=
          Classical.not_not.mp fun opened => stop ((decides _).mpr opened)
        exact predicts_many_nil close begins []

theorem many_foresees {goesOn : Token → Bool} {step : Parse α} {closes : Kind → Prop}
    (decides : ∀ token, goesOn token = true ↔ ¬closes token.kind) (ended : closes .endOfInput)
    (begins : phrases.Begins (¬closes ·)) (notEmpty : ∀ behind, ¬phrases [] behind)
    (meets : Meets phrases (Many phrases closes)) (foresees : Foresees phrases step) :
    Foresees (Many phrases closes) (many goesOn step) := by
  intro state closed
  have predicts := repeatWhile_predicts decides ended begins notEmpty meets foresees state.rest closed
    (Nat.le_refl _)
  exact ⟨predicts.reads, predicts.refuses⟩

end Parse

end StagedAnalysis
