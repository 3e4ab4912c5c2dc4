/-!
The three stages of an analysis, in the order in which they run.
-/
namespace StagedAnalysis

inductive Stage where
  | lexical
  | syntactic
  | semantic
  deriving DecidableEq

namespace Stage

def all : List Stage := [lexical, syntactic, semantic]

def rank : Stage → Nat
  | lexical => 0
  | syntactic => 1
  | semantic => 2

def before (first second : Stage) : Bool :=
  first.rank < second.rank

/-- The stage that has to pass before this one may run. -/
def previous? : Stage → Option Stage
  | lexical => none
  | syntactic => some lexical
  | semantic => some syntactic

def name : Stage → String
  | lexical => "lexical"
  | syntactic => "syntax"
  | semantic => "semantic"

def ofName? (name : String) : Option Stage :=
  all.find? (·.name == name)

theorem mem_all (stage : Stage) : stage ∈ all := by
  cases stage <;> decide

theorem ofName?_name (stage : Stage) : ofName? stage.name = some stage := by
  cases stage <;> decide

theorem previous?_eq_some_iff {stage earlier : Stage} :
    stage.previous? = some earlier ↔ stage.rank = earlier.rank + 1 := by
  cases stage <;> cases earlier <;> decide

end Stage

end StagedAnalysis
