import StagedAnalysis.Proofs.Reading.Compositional
/-!
What a failure of reading says.

Wherever reading fails, it stops in front of the token that is at fault: the report is one of the
syntactic ones and has the place of that token, and its description where it has one. The single steps
keep this, and so does everything that is made of them.
-/
namespace StagedAnalysis

namespace Parse

variable {α : Type}

/-- A failure of the step names the token in front of which the step stopped. -/
def Accountable (step : Parse α) : Prop :=
  ∀ (state stopped : ParseState) (error : AnalysisError),
    step.run state = .error error stopped → Blames stopped.current error

theorem accountable_tooDeep : Accountable (tooDeep : Parse α) := by
  intro state stopped error failed
  cases failed
  exact .nestingTooDeep

theorem accountable_tooLong : Accountable (tooLong : Parse α) := by
  intro state stopped error failed
  cases failed
  exact .expressionTooLong

theorem accountable_enter : Accountable enter := by
  intro state stopped error failed
  rw [EStateM.run, enter] at failed
  split at failed
  · cases failed
  · exact accountable_tooDeep _ _ _ failed

theorem accountable_leave (levels : Nat) : Accountable (leave levels) := by
  intro state stopped error failed
  cases failed

theorem accountable_countOperator : Accountable countOperator := by
  intro state stopped error failed
  rw [EStateM.run, countOperator] at failed
  split at failed
  · cases failed
  · exact accountable_tooLong _ _ _ failed

/-- The level that is left when a step fails does not change which token comes next. -/
theorem Accountable.nested {step : Parse α} (inner : step.Accountable) :
    Accountable fun state => nested step state := by
  intro state stopped error failed
  unfold EStateM.run Parse.nested at failed
  dsimp only at failed
  split at failed
  · rename_i refused between entered
    cases failed
    exact accountable_enter _ _ _ entered
  · rename_i inside entered
    split at failed
    · cases failed
    · rename_i earlier between given
      cases failed
      exact inner inside between error given

theorem accountable_compositional : Compositional @Accountable where
  pure value := by
    intro state stopped error failed
    cases failed
  bind {_ _ step next} first rest := by
    intro state stopped error failed
    rw [EStateM.run_bind] at failed
    cases given : step.run state with
    | ok value between =>
        rw [given] at failed
        exact rest value _ _ _ failed
    | error earlier between =>
        rw [given] at failed
        cases failed
        exact first _ _ _ given
  current {_ next} each := by
    intro state stopped error failed
    have failed : (next state.current).run state = .error error stopped := failed
    obtain accountable | ⟨fault, blames, rejects⟩ := each state.current
    · exact accountable _ _ _ failed
    · rw [rejects] at failed
      cases failed
      exact blames
  advance := by
    intro state stopped error failed
    cases failed
  previous := by
    intro state stopped error failed
    cases failed
  tooDeep {α} := @accountable_tooDeep α
  nested := Accountable.nested
  many each _ _ := fun state => each state.rest state

theorem accountable_counting : CompositionalCounting @Accountable where
  toCompositional := accountable_compositional
  tooLong {α} := @accountable_tooLong α
  countOperator := accountable_countOperator
  resetOperators := by
    intro state stopped error failed
    cases failed
  unary := accountable_compositional.unary accountable_enter accountable_leave

theorem accountable_program : Accountable program :=
  accountable_compositional.program accountable_counting.expression

end Parse

/-- A list of tokens that is no program is refused because of the token that reading stopped in
front of. -/
theorem Program.blames_of_ofTokens {tokens : List Token} {error : AnalysisError}
    (refused : Program.ofTokens tokens = .error error) :
    Blames (ParseState.ofTokens tokens).program.2.current error := by
  unfold Program.ofTokens ParseState.program at refused
  unfold ParseState.program
  split at refused
  · cases refused
  · rename_i earlier stopped failed
    cases refused
    exact Parse.accountable_program _ _ _ failed

end StagedAnalysis
