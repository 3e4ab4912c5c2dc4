import StagedAnalysis.Parsing.Statement
/-!
What single steps of reading do when they succeed.

A state is seen as the kinds of the tokens that are left in front of the end of the input; it does
not matter whether that end is a token or the end of the list. `Gives` says that a step succeeds,
with which value and where it stops; each of the building blocks of the reader has one lemma that
says exactly when it does. `Reads` says which kinds a successful step has moved over.
-/
namespace StagedAnalysis

open Token (Kind)

namespace ParseState

variable {state between later : ParseState} {word : List Kind} {kind : Kind}

/-! ### The kinds that are left -/

def ahead (state : ParseState) : List Kind :=
  (state.rest.takeWhile (!·.isEnd)).map (·.kind)

theorem ahead_advance (state : ParseState) : state.advance.ahead = state.ahead.tail := by
  rcases state with ⟨rest, previous, depth, operators, closing⟩
  cases rest with
  | nil => rfl
  | cons token rest =>
      cases last : token.isEnd <;> simp [advance, ahead, last]

theorem ahead_eq_nil_iff (closing : state.closing.isEnd = true) :
    state.ahead = [] ↔ state.isAtEnd = true := by
  rcases state with ⟨rest, previous, depth, operators, closing⟩
  cases rest with
  | nil => simpa [ahead, isAtEnd, current] using closing
  | cons token rest =>
      cases last : token.isEnd <;> simp [ahead, isAtEnd, current, last]

/-- In front of a token that goes on, one token less is ahead behind it. -/
theorem ahead_length_advance (closed : state.closing.isEnd = true)
    (goesOn : state.current.isEnd = false) :
    state.advance.ahead.length + 1 = state.ahead.length := by
  have notEmpty : state.ahead ≠ [] := by
    intro empty
    have ended : state.current.isEnd = true := (ahead_eq_nil_iff closed).mp empty
    rw [goesOn] at ended
    cases ended
  have positive := List.length_pos_iff.mpr notEmpty
  rw [ahead_advance, List.length_tail]
  omega

theorem current_kind_of_ahead {kinds : List Kind} (shape : state.ahead = kind :: kinds) :
    state.current.kind = kind := by
  rcases state with ⟨rest, previous, depth, operators, closing⟩
  cases rest with
  | nil => cases shape
  | cons token rest =>
      cases last : token.isEnd with
      | true => simp [ahead, last] at shape
      | false =>
          simp only [ahead, last, List.takeWhile_cons, Bool.not_false, if_true, List.map_cons,
            List.cons.injEq] at shape
          exact shape.1

theorem current_kind (closing : state.closing.isEnd = true) :
    state.current.kind = state.ahead.headD .endOfInput := by
  cases shape : state.ahead with
  | nil =>
      have ended := (ahead_eq_nil_iff closing).mp shape
      simpa [isAtEnd, Token.isEnd] using ended
  | cons kind kinds => exact current_kind_of_ahead shape

theorem ahead_of_current_kind (closing : state.closing.isEnd = true)
    (seen : state.current.kind = kind) (goesOn : kind ≠ .endOfInput) :
    state.ahead = kind :: state.advance.ahead := by
  cases shape : state.ahead with
  | nil =>
      have ended := (ahead_eq_nil_iff closing).mp shape
      simp only [isAtEnd, Token.isEnd, seen, beq_iff_eq] at ended
      exact absurd ended goesOn
  | cons head tail =>
      rw [ahead_advance, shape, ← seen, current_kind_of_ahead shape]
      rfl

theorem advance_closing (state : ParseState) : state.advance.closing = state.closing := by
  unfold advance
  split
  · split <;> rfl
  · rfl

theorem ahead_ofTokens (tokens : List Token) :
    (ofTokens tokens).ahead = (tokens.takeWhile (!·.isEnd)).map (·.kind) :=
  rfl

theorem ahead_length_le (state : ParseState) : state.ahead.length ≤ state.rest.length := by
  rw [ahead, List.length_map]
  exact (List.takeWhile_sublist _).length_le

/-! ### Moving over a word -/

structure Ready (state : ParseState) : Prop where
  closing : state.closing.isEnd = true
  depth : state.depth ≤ maxDepth
  operators : state.operators ≤ maxOperators

/-- The later state stands behind a word that the first one stands in front of, on the same level,
and its count of operators is within the limit. -/
structure Reads (word : List Kind) (state later : ParseState) : Prop where
  ahead : state.ahead = word ++ later.ahead
  depth : later.depth = state.depth
  closing : later.closing = state.closing
  operators : later.operators ≤ maxOperators

theorem Ready.behind (ready : state.Ready) (reads : Reads word state later) : later.Ready :=
  ⟨reads.closing ▸ ready.closing, reads.depth ▸ ready.depth, reads.operators⟩

theorem Ready.reads_nil (ready : state.Ready) : Reads [] state state :=
  ⟨rfl, rfl, rfl, ready.operators⟩

theorem Reads.trans {second : List Kind} (first : Reads word state between)
    (rest : Reads second between later) : Reads (word ++ second) state later where
  ahead := by rw [first.ahead, rest.ahead, List.append_assoc]
  depth := rest.depth.trans first.depth
  closing := rest.closing.trans first.closing
  operators := rest.operators

theorem Reads.cons {second : List Kind} (first : Reads [kind] state between)
    (rest : Reads second between later) : Reads (kind :: second) state later :=
  first.trans rest

theorem Ready.reads_advance (ready : state.Ready) (seen : state.current.kind = kind)
    (goesOn : kind ≠ .endOfInput) : Reads [kind] state state.advance where
  ahead := ahead_of_current_kind ready.closing seen goesOn
  depth := state.advance_depth
  closing := state.advance_closing
  operators := state.advance_operators ▸ ready.operators

theorem Ready.reads_on (ready : state.Ready) (reads : Reads word state between)
    (seen : between.current.kind = kind) (goesOn : kind ≠ .endOfInput) :
    Reads (word ++ [kind]) state between.advance :=
  reads.trans ((ready.behind reads).reads_advance seen goesOn)

/-- What is left behind a word is known from what was left in front of it. -/
theorem Reads.ahead_eq {suffix : List Kind} (reads : Reads word state later)
    (shape : state.ahead = word ++ suffix) : later.ahead = suffix :=
  List.append_cancel_left (reads.ahead.symm.trans shape)

theorem ofTokens_ready (tokens : List Token) : (ofTokens tokens).Ready :=
  ⟨rfl, Nat.zero_le _, Nat.zero_le _⟩

/-! ### Counting -/

def entered (state : ParseState) : ParseState :=
  { state with depth := state.depth + 1 }

def counted (state : ParseState) : ParseState :=
  { state with operators := state.operators + 1 }

def uncounted (state : ParseState) : ParseState :=
  { state with operators := 0 }

@[simp] theorem entered_current (state : ParseState) : state.entered.current = state.current := rfl

@[simp] theorem entered_ahead (state : ParseState) : state.entered.ahead = state.ahead := rfl

@[simp] theorem entered_depth (state : ParseState) : state.entered.depth = state.depth + 1 := rfl

@[simp] theorem entered_operators (state : ParseState) :
    state.entered.operators = state.operators := rfl

@[simp] theorem counted_current (state : ParseState) : state.counted.current = state.current := rfl

@[simp] theorem counted_ahead (state : ParseState) : state.counted.ahead = state.ahead := rfl

@[simp] theorem counted_depth (state : ParseState) : state.counted.depth = state.depth := rfl

@[simp] theorem counted_operators (state : ParseState) :
    state.counted.operators = state.operators + 1 := rfl

@[simp] theorem uncounted_ahead (state : ParseState) : state.uncounted.ahead = state.ahead := rfl

@[simp] theorem uncounted_depth (state : ParseState) : state.uncounted.depth = state.depth := rfl

@[simp] theorem uncounted_operators (state : ParseState) : state.uncounted.operators = 0 := rfl

@[simp] theorem leave_ahead (state : ParseState) (levels : Nat) :
    (state.leave levels).ahead = state.ahead := rfl

@[simp] theorem leave_depth (state : ParseState) (levels : Nat) :
    (state.leave levels).depth = state.depth - levels := rfl

@[simp] theorem leave_operators (state : ParseState) (levels : Nat) :
    (state.leave levels).operators = state.operators := rfl

theorem Ready.entered (ready : state.Ready) (fits : state.depth < maxDepth) :
    state.entered.Ready :=
  ⟨ready.closing, fits, ready.operators⟩

/-- What is moved over one level further in is moved over on the level itself. -/
theorem Reads.outwards (reads : Reads word state.entered later) :
    Reads word state (later.leave 1) where
  ahead := reads.ahead
  depth := by rw [leave_depth, reads.depth, entered_depth, Nat.add_sub_cancel]
  closing := reads.closing
  operators := reads.operators

theorem Ready.uncounted (ready : state.Ready) : state.uncounted.Ready :=
  ⟨ready.closing, ready.depth, Nat.zero_le _⟩

/-- An operator is counted before it is taken. -/
theorem Ready.reads_counted (ready : state.Ready) (seen : state.current.kind = kind)
    (goesOn : kind ≠ .endOfInput) (fits : state.operators < maxOperators) :
    Reads [kind] state state.counted.advance where
  ahead := @ahead_of_current_kind state.counted _ ready.closing seen goesOn
  depth := state.counted.advance_depth
  closing := state.counted.advance_closing
  operators := state.counted.advance_operators ▸ fits

end ParseState

/-! ### Success of the building blocks -/

namespace Parse

variable {α β : Type} {state behind : ParseState}

def Gives (step : Parse α) (state : ParseState) (value : α) (behind : ParseState) : Prop :=
  step.run state = .ok value behind

@[simp] theorem gives_pure {value result : α} :
    (pure value : Parse α).Gives state result behind ↔ value = result ∧ state = behind := by
  simp [Gives]

@[simp] theorem gives_bind {step : Parse α} {next : α → Parse β} {result : β} :
    (step >>= next).Gives state result behind ↔
      ∃ value between,
        step.Gives state value between ∧ (next value).Gives between result behind := by
  simp only [Gives, EStateM.run_bind]
  cases step.run state with
  | ok value between =>
      constructor
      · intro given
        exact ⟨value, between, rfl, given⟩
      · rintro ⟨_, _, same, given⟩
        cases same
        exact given
  | error error stopped => simp

@[simp] theorem gives_map {step : Parse α} {function : α → β} {result : β} :
    (function <$> step).Gives state result behind ↔
      ∃ value, step.Gives state value behind ∧ function value = result := by
  rw [map_eq_pure_bind, gives_bind]
  simp only [gives_pure]
  constructor
  · rintro ⟨value, _, given, same, rfl⟩
    exact ⟨value, given, same⟩
  · rintro ⟨value, given, same⟩
    exact ⟨value, behind, given, same, rfl⟩

@[simp] theorem gives_ite {condition : Prop} [Decidable condition] {first second : Parse α}
    {value : α} :
    (if condition then first else second).Gives state value behind ↔
      if condition then first.Gives state value behind else second.Gives state value behind := by
  split <;> rfl

@[simp] theorem gives_throw {error : AnalysisError} {value : α} :
    ¬(throw error : Parse α).Gives state value behind := by
  intro given
  cases given

@[simp] theorem gives_current {token : Token} :
    current.Gives state token behind ↔ state.current = token ∧ state = behind := by
  change EStateM.Result.ok _ _ = EStateM.Result.ok _ _ ↔ _
  simp

@[simp] theorem gives_advance {token : Token} :
    advance.Gives state token behind ↔ state.current = token ∧ state.advance = behind := by
  change EStateM.Result.ok _ _ = EStateM.Result.ok _ _ ↔ _
  simp

@[simp] theorem gives_previous {span : Span} :
    previous.Gives state span behind ↔ state.previous = span ∧ state = behind := by
  change EStateM.Result.ok _ _ = EStateM.Result.ok _ _ ↔ _
  simp

@[simp] theorem gives_unexpected {expected : String} {value : α} :
    ¬(unexpected expected : Parse α).Gives state value behind := by
  simp [unexpected]

@[simp] theorem gives_expectAs {symbol : Symbol} {expected : String} {token : Token} :
    (expectAs symbol expected).Gives state token behind ↔
      state.current.kind = .symbol symbol ∧ state.current = token ∧ state.advance = behind := by
  simp [expectAs, and_assoc]

@[simp] theorem gives_expect {symbol : Symbol} {token : Token} :
    (expect symbol).Gives state token behind ↔
      state.current.kind = .symbol symbol ∧ state.current = token ∧ state.advance = behind :=
  gives_expectAs

@[simp] theorem gives_accept {kind : Kind} {taken : Bool} :
    (accept kind).Gives state taken behind ↔
      if state.current.kind = kind then taken = true ∧ state.advance = behind
      else taken = false ∧ state = behind := by
  simp only [accept, gives_bind, gives_current]
  constructor
  · rintro ⟨_, _, ⟨rfl, rfl⟩, given⟩
    split at given <;> simp_all
  · intro given
    refine ⟨_, _, ⟨rfl, rfl⟩, ?_⟩
    split at given <;> simp_all

@[simp] theorem gives_tooDeep {value : α} : ¬(tooDeep : Parse α).Gives state value behind := by
  intro given
  cases given

@[simp] theorem gives_tooLong {value : α} : ¬(tooLong : Parse α).Gives state value behind := by
  intro given
  cases given

@[simp] theorem gives_enter {done : Unit} :
    enter.Gives state done behind ↔
      state.depth < maxDepth ∧ state.entered = behind := by
  unfold Gives EStateM.run enter
  by_cases fits : state.depth < maxDepth
  · simp [fits, ParseState.entered]
  · simp [fits, tooDeep]

@[simp] theorem gives_leave {levels : Nat} {done : Unit} :
    (leave levels).Gives state done behind ↔ state.leave levels = behind := by
  change EStateM.Result.ok _ _ = EStateM.Result.ok _ _ ↔ _
  simp

@[simp] theorem gives_countOperator {done : Unit} :
    countOperator.Gives state done behind ↔
      state.operators < maxOperators ∧ state.counted = behind := by
  unfold Gives EStateM.run countOperator
  by_cases fits : state.operators < maxOperators
  · simp [fits, ParseState.counted]
  · simp [fits, tooLong]

@[simp] theorem gives_resetOperators {done : Unit} :
    resetOperators.Gives state done behind ↔ state.uncounted = behind := by
  change EStateM.Result.ok _ _ = EStateM.Result.ok _ _ ↔ _
  simp [ParseState.uncounted]

/-- A step one level further in succeeds if there is a level left and the step succeeds there. -/
@[simp] theorem gives_nested {step : Parse α} {value : α} :
    Gives (fun state => nested step state) state value behind ↔
      state.depth < maxDepth ∧ ∃ inside,
        step.Gives state.entered value inside ∧ inside.leave 1 = behind := by
  unfold Gives EStateM.run nested enter
  by_cases fits : state.depth < maxDepth
  · simp only [fits, if_true, true_and]
    split
    · rename_i result inside given
      rw [show step state.entered = _ from given]
      simp [and_assoc]
    · rename_i error stopped failed
      rw [show step state.entered = _ from failed]
      simp
  · simp [fits, tooDeep]

end Parse

end StagedAnalysis
