import StagedAnalysis.Scope
/-!
The table of scopes seen as a stack.

Scopes that were left stay in the table and are never reached again. What matters are the scopes
from the current one outwards, and of each only its names: a stack of lists of names, the innermost
first. A view of a table is that stack; each operation on the table is the plain operation on it.
-/
namespace StagedAnalysis

/-- The names of the open scopes, the innermost scope first. -/
abbrev ScopeStack := List (List Declared)

namespace ScopeStack

def find? (stack : ScopeStack) (name : String) : Option Declared :=
  stack.findSome? fun names => names.find? (·.name == name)

theorem find?_cons (names : List Declared) (outer : ScopeStack) (name : String) :
    find? (names :: outer) name = (names.find? (·.name == name)).or (outer.find? name) := by
  rw [find?, List.findSome?_cons]
  cases names.find? (·.name == name) <;> rfl

end ScopeStack

namespace ScopeTable

variable {scopes : Array Scope} {table : ScopeTable} {index : Nat} {names : List Declared}
  {stack outer : ScopeStack}

/-! ### The scopes around a scope -/

/-- The names from one scope outwards. Every scope but the outermost is inside of an older one. -/
inductive Chain (scopes : Array Scope) : Nat → ScopeStack → Prop
  | outermost {index : Nat} {names : List Declared} (found : scopes[index]? = some ⟨none, names⟩) :
      Chain scopes index [names]
  | inner {index parent : Nat} {names : List Declared} {outer : ScopeStack}
      (found : scopes[index]? = some ⟨some parent, names⟩) (older : parent < index)
      (around : Chain scopes parent outer) :
      Chain scopes index (names :: outer)

theorem Chain.lt_size (chain : Chain scopes index stack) : index < scopes.size := by
  cases chain with
  | outermost found => exact (Array.getElem?_eq_some_iff.mp found).1
  | inner found _ _ => exact (Array.getElem?_eq_some_iff.mp found).1

theorem Chain.push (chain : Chain scopes index stack) (scope : Scope) :
    Chain (scopes.push scope) index stack := by
  have kept {index : Nat} {old : Scope} (found : scopes[index]? = some old) :
      (scopes.push scope)[index]? = some old := by
    have within := (Array.getElem?_eq_some_iff.mp found).1
    rw [Array.getElem?_push, if_neg (Nat.ne_of_lt within)]
    exact found
  induction chain with
  | outermost found => exact .outermost (kept found)
  | inner found older _ inductionHypothesis => exact .inner (kept found) older inductionHypothesis

/-- A chain does not see what happens to a scope that is younger than all of its own. -/
theorem Chain.modify (chain : Chain scopes index stack) {younger : Nat} (later : index < younger)
    (change : Scope → Scope) : Chain (scopes.modify younger change) index stack := by
  have kept {index : Nat} {old : Scope} (earlier : index < younger)
      (found : scopes[index]? = some old) : (scopes.modify younger change)[index]? = some old := by
    rw [Array.getElem?_modify, if_neg (Nat.ne_of_gt earlier)]
    exact found
  induction chain with
  | outermost found => exact .outermost (kept later found)
  | inner found older _ inductionHypothesis =>
      exact .inner (kept later found) older (inductionHypothesis (Nat.lt_trans older later))

theorem Chain.lookupFrom? (chain : Chain table.scopes index stack) (name : String) {steps : Nat}
    (enough : index < steps) : table.lookupFrom? name steps index = stack.find? name := by
  -- a scope is older than the scopes inside of it, so the steps do not run out before the chain
  induction chain generalizing steps with
  | outermost found =>
      obtain ⟨steps, rfl⟩ := Nat.exists_eq_add_one_of_ne_zero (Nat.ne_zero_of_lt enough)
      rw [ScopeTable.lookupFrom?, found, ScopeStack.find?_cons]
      simp only [Scope.find?]
      cases List.find? _ _ <;> rfl
  | @inner _ parent _ _ found older _ inductionHypothesis =>
      obtain ⟨steps, rfl⟩ := Nat.exists_eq_add_one_of_ne_zero (Nat.ne_zero_of_lt enough)
      have further := inductionHypothesis (show parent < steps by omega)
      rw [ScopeTable.lookupFrom?, found, ScopeStack.find?_cons]
      simp only [Scope.find?]
      cases List.find? _ _ with
      | none => exact further
      | some declared => rfl

/-! ### Views -/

/-- The stack is what the table shows from its current scope outwards. -/
def Views (table : ScopeTable) (stack : ScopeStack) : Prop :=
  Chain table.scopes table.current stack

theorem outermost_views : outermost.Views [[]] :=
  .outermost rfl

theorem Views.enter (views : table.Views stack) : table.enter.Views ([] :: stack) :=
  .inner Array.getElem?_push_size views.lt_size (views.push _)

theorem Views.leave (views : table.Views (names :: outer)) (inside : outer ≠ []) :
    table.leave.Views outer := by
  cases views with
  | outermost found => exact absurd rfl inside
  | inner found older around =>
      unfold ScopeTable.leave
      rw [found]
      exact around

theorem Views.leave_outermost (views : table.Views [names]) : table.leave = table := by
  cases views with
  | outermost found =>
      unfold ScopeTable.leave
      rw [found]
      rfl
  | inner found older around => cases around

theorem Views.lookup? (views : table.Views stack) (name : String) :
    table.lookup? name = stack.find? name :=
  views.lookupFrom? name views.lt_size

theorem Views.lookupLocal? (views : table.Views (names :: outer)) (name : String) :
    table.lookupLocal? name = names.find? (·.name == name) := by
  cases views with
  | outermost found | inner found older around =>
      rw [ScopeTable.lookupLocal?, found]
      rfl

theorem Views.define_of_some (views : table.Views (names :: outer)) {declared existing : Declared}
    (found : names.find? (·.name == declared.name) = some existing) :
    table.define declared =
      .error (.duplicateDeclaration declared.name existing.span declared.span) := by
  rw [define, views.lookupLocal?, found]

theorem Views.define_of_none (views : table.Views (names :: outer)) {declared : Declared}
    (fresh : names.find? (·.name == declared.name) = none) :
    ∃ extended, table.define declared = .ok extended ∧
      extended.Views ((declared :: names) :: outer) := by
  refine ⟨_, by rw [define, views.lookupLocal?, fresh], ?_⟩
  have changed {scope : Scope} (found : table.scopes[table.current]? = some scope) :
      (table.scopes.modify table.current (·.insert declared))[table.current]? =
        some (scope.insert declared) := by
    rw [Array.getElem?_modify, if_pos rfl, found]
    rfl
  cases views with
  | outermost found => exact .outermost (changed found)
  | inner found older around =>
      exact .inner (changed found) older (around.modify older (·.insert declared))

end ScopeTable

end StagedAnalysis
