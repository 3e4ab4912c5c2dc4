import StagedAnalysis.Proofs.Reading.Outcomes
/-!
States in which the reader cannot tell the difference.

Two states are alike if they show the same token, stand behind the same one and are on the same
level, and stay alike where the reader moves. From states that are alike a step has outcomes that
match: the same result or the same error, in states that are alike again. The budget of a repetition
is longer in one of the states, but it does not matter how long it is.
-/
namespace StagedAnalysis

namespace ParseState

structure Likeness where
  alike : ParseState → ParseState → Prop
  closed {first second : ParseState} :
    alike first second → first.closing.isEnd = true ∧ second.closing.isEnd = true
  current {first second : ParseState} : alike first second → first.current = second.current
  advance {first second : ParseState} : alike first second → alike first.advance second.advance
  previous {first second : ParseState} : alike first second → first.previous = second.previous
  depth {first second : ParseState} : alike first second → first.depth = second.depth
  atDepth {first second : ParseState} : alike first second → ∀ depth,
    alike { first with depth := depth } { second with depth := depth }

end ParseState

namespace Parse

open ParseState (Likeness)

variable {α β : Type} {likeness : Likeness}

inductive Matches (likeness : Likeness) : Outcome α → Outcome α → Prop
  | ok (value : α) {later other : ParseState} (alike : likeness.alike later other) :
      Matches likeness (.ok value later) (.ok value other)
  | error (error : AnalysisError) {stopped other : ParseState}
      (alike : likeness.alike stopped other) :
      Matches likeness (.error error stopped) (.error error other)

theorem Matches.result {outcome other : Outcome α} (same : Matches likeness outcome other) :
    outcome.result = other.result := by
  cases same <;> rfl

/-- From states that are alike the step has outcomes that match. -/
def Congruent (likeness : Likeness) (step : Parse α) : Prop :=
  ∀ ⦃first second : ParseState⦄, likeness.alike first second →
    Matches likeness (step.run first) (step.run second)

theorem congruent_tooDeep : Congruent likeness (tooDeep : Parse α) := by
  intro first second alike
  change Matches likeness (.error (.nestingTooDeep maxDepth first.current.span) _)
    (.error (.nestingTooDeep maxDepth second.current.span) _)
  rw [likeness.current alike, likeness.depth alike]
  exact .error _ (likeness.atDepth alike _)

theorem congruent_enter : Congruent likeness enter := by
  intro first second alike
  unfold EStateM.run enter
  rw [likeness.depth alike]
  split
  · exact .ok () (likeness.atDepth alike _)
  · exact congruent_tooDeep alike

theorem congruent_leave (levels : Nat) : Congruent likeness (leave levels) := by
  intro first second alike
  change Matches likeness (.ok () { first with depth := first.depth - levels })
    (.ok () { second with depth := second.depth - levels })
  rw [likeness.depth alike]
  exact .ok () (likeness.atDepth alike _)

theorem Matches.leave {outcome other : Outcome α} (same : Matches likeness outcome other) :
    Matches likeness (outcome.mapState (·.leave 1)) (other.mapState (·.leave 1)) := by
  have left {later otherLater : ParseState} (alike : likeness.alike later otherLater) :
      likeness.alike (later.leave 1) (otherLater.leave 1) := by
    change likeness.alike { later with depth := later.depth - 1 }
      { otherLater with depth := otherLater.depth - 1 }
    rw [likeness.depth alike]
    exact likeness.atDepth alike _
  cases same with
  | ok value alike => exact .ok value (left alike)
  | error error alike => exact .error error (left alike)

theorem Congruent.bind {step : Parse α} {next : α → Parse β} (first : Congruent likeness step)
    (rest : ∀ value, Congruent likeness (next value)) : Congruent likeness (step >>= next) := by
  intro state other alike
  rw [EStateM.run_bind, EStateM.run_bind]
  have same := first alike
  generalize step.run state = outcome at same ⊢
  generalize step.run other = otherOutcome at same ⊢
  cases same with
  | ok value alike => exact rest value alike
  | error error alike => exact .error error alike

theorem Congruent.nested {step : Parse α} (inner : Congruent likeness step) :
    Congruent likeness fun state => nested step state := by
  intro first second alike
  rw [run_nested, run_nested, likeness.depth alike]
  split
  · apply Matches.leave
    apply inner
    change likeness.alike { first with depth := first.depth + 1 }
      { second with depth := second.depth + 1 }
    rw [likeness.depth alike]
    exact likeness.atDepth alike _
  · exact congruent_tooDeep alike

theorem Congruent.many {step : Parse α} {goesOn : Token → Bool}
    (each : ∀ budget, Congruent likeness (repeatWhile goesOn step budget))
    (progresses : Progresses step)
    (stops : ∀ token : Token, token.isEnd = true → goesOn token = false) :
    Congruent likeness (many goesOn step) := by
  -- a budget for both: as long as what is left in the two states together
  intro first second alike
  obtain ⟨firstClosed, secondClosed⟩ := likeness.closed alike
  have firstSame : repeatWhile goesOn step first.rest first =
      repeatWhile goesOn step (first.rest ++ second.rest) first :=
    progresses.repeatWhile_eq stops firstClosed (Nat.le_refl _) (by simp)
  have secondSame : repeatWhile goesOn step second.rest second =
      repeatWhile goesOn step (first.rest ++ second.rest) second :=
    progresses.repeatWhile_eq stops secondClosed (Nat.le_refl _) (by simp)
  change Matches likeness (repeatWhile goesOn step first.rest first)
    (repeatWhile goesOn step second.rest second)
  rw [firstSame, secondSame]
  exact each (first.rest ++ second.rest) alike

theorem congruent_compositional (likeness : Likeness) : Compositional (Congruent likeness) where
  pure value _ _ alike := .ok value alike
  bind := Congruent.bind
  current {_ next} each := by
    intro first second alike
    change Matches likeness ((next first.current).run first) ((next second.current).run second)
    rw [likeness.current alike]
    obtain congruent | ⟨error, _, rejects⟩ := each second.current
    · exact congruent alike
    · rw [rejects]
      exact .error error alike
  advance := by
    intro first second alike
    change Matches likeness (.ok first.current first.advance) (.ok second.current second.advance)
    rw [likeness.current alike]
    exact .ok _ (likeness.advance alike)
  previous := by
    intro first second alike
    change Matches likeness (.ok first.previous first) (.ok second.previous second)
    rw [likeness.previous alike]
    exact .ok _ alike
  tooDeep {α} := @congruent_tooDeep α likeness
  nested := Congruent.nested
  many := Congruent.many

end Parse

end StagedAnalysis
