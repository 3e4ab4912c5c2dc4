import StagedAnalysis.Proofs.Reading.Outcomes
/-!
Loops, and how often they run.

A loop looks at the next token, does a round if the token asks for one, and looks again. Nothing else
bounds it. A step that is written with a bound of its own is a loop if the bound is never what ends it;
where each round takes a token, the loop comes to its end after no more rounds than tokens are left.

Two steps agree if they come to the same as long as the levels that are left are enough for them.
-/
namespace StagedAnalysis

namespace ParseState

variable {state later : ParseState} {levels : Nat}

structure Covered (levels : Nat) (state : ParseState) : Prop where
  closed : state.closing.isEnd = true
  covers : maxDepth ≤ state.depth + levels

/-- Wherever one begins, so many levels are enough. -/
theorem covered_maxDepth (closed : state.closing.isEnd = true) : state.Covered maxDepth :=
  ⟨closed, Nat.le_add_left _ _⟩

theorem Covered.congr (covered : state.Covered levels) (closing : later.closing = state.closing)
    (depth : state.depth ≤ later.depth) : later.Covered levels :=
  ⟨closing ▸ covered.closed, Nat.le_trans covered.covers (Nat.add_le_add_right depth _)⟩

theorem Covered.advance (covered : state.Covered levels) : state.advance.Covered levels :=
  covered.congr state.advance_closing (Nat.le_of_eq state.advance_depth.symm)

/-- One level further in, one level less is enough. -/
theorem Covered.entered (covered : state.Covered (levels + 1)) : state.entered.Covered levels where
  closed := covered.closed
  covers := by
    have covers := covered.covers
    rw [entered_depth]
    omega

theorem Covered.outwards (covered : state.Covered levels) : (state.leave 1).Covered (levels + 1) where
  closed := covered.closed
  covers := by
    have covers := covered.covers
    rw [leave_depth]
    omega

end ParseState

namespace Parse

open ParseState (Covered)

variable {α β : Type} {state later : ParseState} {levels : Nat}

/-- Where two steps have the same outcome, what follows needs to be the same only behind the result. -/
theorem run_bind_congr {step other : Parse α} {next otherNext : α → Parse β} {start : ParseState}
    (same : step.run state = other.run start)
    (rest : ∀ {value later}, other.Gives start value later →
      (next value).run later = (otherNext value).run later) :
    (step >>= next).run state = (other >>= otherNext).run start := by
  rw [EStateM.run_bind, EStateM.run_bind, same]
  cases outcome : other.run start with
  | error error stopped => rfl
  | ok value between => exact rest outcome

/-! ### Loops -/

section Loops

inductive Cycles (round? : β → Token → Option (Parse β)) :
    Nat → β → ParseState → Outcome β → Prop
  | stops {reached : β} {state : ParseState} (asked : round? reached state.current = none) :
      Cycles round? 0 reached state (.ok reached state)
  | fails {reached : β} {state stopped : ParseState} {round : Parse β} {error : AnalysisError}
      (asked : round? reached state.current = some round)
      (failed : round.run state = .error error stopped) :
      Cycles round? 1 reached state (.error error stopped)
  | goesOn {reached next : β} {state between : ParseState} {round : Parse β} {count : Nat}
      {outcome : Outcome β} (asked : round? reached state.current = some round)
      (given : round.run state = .ok next between)
      (rest : Cycles round? count next between outcome) :
      Cycles round? (count + 1) reached state outcome

def CyclesWithin (rounds : Nat) (state : ParseState) (round? : β → Token → Option (Parse β))
    (start : β) (step : Parse β) : Prop :=
  ∃ count ≤ rounds, Cycles round? count start state (step.run state)

/-- Does a round as long as the next token asks for one, and gives up if that are more rounds than it is
allowed. -/
def loop (giveUp : Parse β) (round? : β → Token → Option (Parse β)) : Nat → β → Parse β
  | 0, reached => do
    match round? reached (← current) with
    | none => return reached
    | some _ => giveUp
  | rounds + 1, reached => do
    match round? reached (← current) with
    | none => return reached
    | some round =>
      let next ← round
      loop giveUp round? rounds next

variable {giveUp : Parse β} {round? : β → Token → Option (Parse β)} {rounds : Nat} {reached : β}

theorem run_loop_stops (stops : round? reached state.current = none) :
    (loop giveUp round? rounds reached).run state = .ok reached state := by
  cases rounds <;> rw [loop, run_look, stops] <;> rfl

theorem run_loop_goesOn {round : Parse β} (goes : round? reached state.current = some round) :
    (loop giveUp round? (rounds + 1) reached).run state =
      (round >>= loop giveUp round? rounds).run state := by
  rw [loop, run_look, goes]

/-- A loop that is allowed the rounds that it does never gives up. -/
theorem Cycles.run_loop {count : Nat} {outcome : Outcome β}
    (cycles : Cycles round? count reached state outcome) (giveUp : Parse β)
    (enough : count ≤ rounds) : (loop giveUp round? rounds reached).run state = outcome := by
  induction cycles generalizing rounds with
  | stops asked => exact run_loop_stops asked
  | fails asked failed =>
      obtain ⟨fewer, rfl⟩ : ∃ fewer, rounds = fewer + 1 := ⟨rounds - 1, by omega⟩
      rw [run_loop_goesOn asked, EStateM.run_bind, failed]
  | goesOn asked given rest inductionHypothesis =>
      obtain ⟨fewer, rfl⟩ : ∃ fewer, rounds = fewer + 1 := ⟨rounds - 1, by omega⟩
      rw [run_loop_goesOn asked, EStateM.run_bind, given]
      exact inductionHypothesis (by omega)

theorem CyclesWithin.run_loop {start : β} {step : Parse β}
    (within : CyclesWithin rounds state round? start step) (giveUp : Parse β) :
    (loop giveUp round? rounds start).run state = step.run state := by
  obtain ⟨count, enough, cycles⟩ := within
  exact cycles.run_loop giveUp enough

/-- The steps are what is left of a loop, each for a bound of its own. A bound fits a state if it is not
met in front of a token that asks for a round. A round takes a token, and a bound fits behind it. -/
structure Unrolls {Bound : Type} (fits : Bound → ParseState → Prop)
    (round? : β → Token → Option (Parse β)) (steps : Bound → β → Parse β) : Prop where
  closed {bound : Bound} {state : ParseState} : fits bound state → state.closing.isEnd = true
  ended {reached : β} {token : Token} : token.isEnd = true → round? reached token = none
  stops {bound : Bound} {reached : β} {state : ParseState} :
    round? reached state.current = none → (steps bound reached).run state = .ok reached state
  goesOn {bound : Bound} {reached : β} {state : ParseState} {round : Parse β} :
    fits bound state → round? reached state.current = some round → state.current.isEnd = false →
    ∃ further, (steps bound reached).run state = (round >>= steps further).run state ∧
      ∀ {value later}, round.Gives state value later →
        fits further later ∧ later.ahead.length < state.ahead.length

/-- A loop comes to what its steps come to, after no more rounds than tokens are left. -/
theorem Unrolls.cyclesWithin {Bound : Type} {fits : Bound → ParseState → Prop}
    {steps : Bound → β → Parse β} (unrolls : Unrolls fits round? steps) {bound : Bound}
    (fitting : fits bound state) (enough : state.ahead.length ≤ rounds) :
    CyclesWithin rounds state round? reached (steps bound reached) := by
  -- by induction on the rounds, since each takes one of the tokens that are left
  induction rounds generalizing state bound reached with
  | zero =>
      have empty : state.ahead = [] := List.eq_nil_of_length_eq_zero (Nat.le_zero.mp enough)
      have ended := (ParseState.ahead_eq_nil_iff (unrolls.closed fitting)).mp empty
      have stops : round? reached state.current = none := unrolls.ended ended
      exact ⟨0, Nat.le_refl _, unrolls.stops stops ▸ .stops stops⟩
  | succ rounds inductionHypothesis =>
      cases asked : round? reached state.current with
      | none => exact ⟨0, Nat.zero_le _, unrolls.stops asked ▸ .stops asked⟩
      | some round =>
          have inside : state.current.isEnd = false := by
            cases ending : state.current.isEnd with
            | false => rfl
            | true => cases (unrolls.ended ending).symm.trans asked
          obtain ⟨further, unrolled, takes⟩ := unrolls.goesOn fitting asked inside
          rw [CyclesWithin, unrolled, EStateM.run_bind]
          cases outcome : round.run state with
          | error error stopped => exact ⟨1, by omega, .fails asked outcome⟩
          | ok next between =>
              obtain ⟨fitsBehind, shorter⟩ := takes outcome
              obtain ⟨count, fewer, rest⟩ :=
                @inductionHypothesis between next further fitsBehind (by omega)
              exact ⟨count + 1, Nat.succ_le_succ fewer, .goesOn asked outcome rest⟩

end Loops

/-! ### Steps that agree -/

structure Agree (levels : Nat) (step other : Parse α) : Prop where
  same {state : ParseState} : state.Covered levels → step.run state = other.run state
  keeps {state later : ParseState} {value : α} :
    state.Covered levels → other.Gives state value later → later.Covered levels

theorem Agree.self {step other : Parse α} (agree : Agree levels step other) :
    Agree levels other other :=
  ⟨fun _ => rfl, agree.keeps⟩

theorem GoesForward.agree {step : Parse α} (forward : GoesForward step) :
    Agree maxDepth step step where
  same _ := rfl
  keeps covered given :=
    ParseState.covered_maxDepth ((forward.reaches given).closing ▸ covered.closed)

theorem Agree.bind {step other : Parse α} {next otherNext : α → Parse β}
    (first : Agree levels step other) (rest : ∀ value, Agree levels (next value) (otherNext value)) :
    Agree levels (step >>= next) (other >>= otherNext) where
  same covered := run_bind_congr (first.same covered) fun given =>
    (rest _).same (first.keeps covered given)
  keeps {state later result} covered given := by
    obtain ⟨value, between, firstGiven, restGiven⟩ := gives_bind.mp given
    exact (rest value).keeps (first.keeps covered firstGiven) restGiven

theorem agree_pure (value : α) : Agree levels (pure value) (pure value) :=
  ⟨fun _ => rfl, fun covered given => (gives_pure.mp given).2 ▸ covered⟩

theorem agree_family (levels : Nat) :
    @CompositionalFamily Bool fun steps => Agree levels (steps true) (steps false) where
  pure value := agree_pure value
  bind first rest := first.bind rest
  current {_ next} each :=
    { same := by
        intro state covered
        change (next true state.current).run state = (next false state.current).run state
        obtain agree | ⟨error, _, _, rejects⟩ := each state.current
        · exact agree.same covered
        · have rejected : next true state.current = next false state.current :=
            (rejects true).trans (rejects false).symm
          rw [rejected]
      keeps := by
        intro state later result covered given
        have given : (next false state.current).Gives state result later := gives_look.mp given
        obtain agree | ⟨error, _, _, rejects⟩ := each state.current
        · exact agree.keeps covered given
        · have rejected : next false state.current = throw error := rejects false
          exact absurd (rejected ▸ given) gives_throw }
  advance := ⟨fun _ => rfl, fun covered given => (gives_advance.mp given).2 ▸ covered.advance⟩
  previous := ⟨fun _ => rfl, fun covered given => (gives_previous.mp given).2 ▸ covered⟩
  many each _ _ :=
    { same := fun covered => (each _).same covered
      keeps := fun covered given => (each _).keeps covered given }

theorem Agree.nested {step other : Parse α} (agree : Agree levels step other) :
    Agree (levels + 1) (fun state => Parse.nested step state)
      (fun state => Parse.nested other state) where
  same {state} covered := by
    have stepRun := run_nested step state
    rw [agree.same covered.entered] at stepRun
    exact stepRun.trans (run_nested other state).symm
  keeps {state later value} covered given := by
    obtain ⟨_, inside, innerGiven, rfl⟩ := gives_nested.mp given
    exact (agree.keeps covered.entered innerGiven).outwards

/-- Where no levels are enough, none is left. -/
theorem agree_tooDeep (step : Parse α) : Agree 0 (fun state => nested step state) tooDeep where
  same {state} covered := by
    have full : ¬state.depth < maxDepth := Nat.not_lt.mpr covered.covers
    exact (run_nested step state).trans (if_neg full)
  keeps _ given := absurd given gives_tooDeep

/-- Steps that agree are repeated alike. -/
theorem Agree.many {step other : Parse α} (agree : Agree levels step other) (goesOn : Token → Bool) :
    Agree levels (Parse.many goesOn step) (Parse.many goesOn other) := by
  have budgets (budget : List Token) :
      Agree levels (repeatWhile goesOn step budget) (repeatWhile goesOn other budget) :=
    @CompositionalFamily.repeatWhile Bool α _ (agree_family levels) goesOn
      (fun member => cond member step other) agree budget
  exact ⟨fun covered => (budgets _).same covered, fun covered given => (budgets _).keeps covered given⟩

theorem agree_resetOperators : Agree levels resetOperators resetOperators where
  same _ := rfl
  keeps covered given := by
    obtain rfl := gives_resetOperators.mp given
    exact covered.congr rfl (Nat.le_refl _)

theorem agree_countOperator : Agree levels countOperator countOperator where
  same _ := rfl
  keeps covered given := by
    obtain ⟨_, rfl⟩ := gives_countOperator.mp given
    exact covered.congr rfl (Nat.le_refl _)

theorem agree_tooLong : Agree levels (tooLong : Parse α) tooLong :=
  ⟨fun _ => rfl, fun _ given => absurd given gives_tooLong⟩

end Parse

end StagedAnalysis
