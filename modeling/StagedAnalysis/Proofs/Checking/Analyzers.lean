import StagedAnalysis.Proofs.Checking.Expressions
import StagedAnalysis.Proofs.Checking.Traces
import StagedAnalysis.Checking.Analyzer
import StagedAnalysis.Proofs.Scopes.Refinement
/-!
Analyzers in use.

An analyzer is open to its users: they switch its mode, drop its errors, work on its scopes and let
it analyze one program after the other. In the course of an analysis it comes to further states, one
behind each statement. In all of them the scopes can be viewed as a stack, and where no symbol has
the type of failed expressions no name that can be seen has it.
-/
namespace StagedAnalysis

namespace Analyzer

/-- What is done with an analyzer. Checking a single statement is a step of an analysis; so are
opening a scope, leaving it and declaring a name. -/
inductive Operation where
  | setStrict (strict : Bool)
  | clearErrors
  | scopes (operation : ScopeOperation)
  | check (statement : Statement)
  | analyze (program : Program)

def Operation.apply : Operation → Analyzer → Analyzer
  | setStrict strict, analyzer => { analyzer with strict := strict }
  | clearErrors, analyzer => analyzer.clearErrors
  | scopes operation, analyzer =>
    { analyzer with scopes := (analyzer.scopes.perform operation).2 }
  | check statement, analyzer => analyzer.analyze ⟨[statement]⟩
  | analyze program, analyzer => analyzer.analyze program

def perform (operations : List Operation) : Analyzer :=
  operations.foldl (fun analyzer operation => operation.apply analyzer) (.initial false)

end Analyzer

/-! ### Views of the scopes -/

namespace ScopeTable

variable {table : ScopeTable} {names : List Declared} {stack outer : ScopeStack}

/-- Behind an operation the scopes have a view again. -/
theorem Views.perform (views : table.Views (names :: outer)) (operation : ScopeOperation) :
    ∃ innermost around, (table.perform operation).2.Views (innermost :: around) := by
  have refines : table.Refines
      ⟨MapStack.ofNames names, outer.map MapStack.ofNames, table.scopes.size - 1⟩ := by
    have some := views.lt_size
    exact ⟨names, outer, views, by dsimp only; omega, rfl, rfl⟩
  rcases (refines.perform operation).2 with ⟨innermost, around, behind, _⟩
  exact ⟨innermost, around, behind⟩

/-- No symbol has the type of failed expressions. -/
def Unpoisoned (table : ScopeTable) : Prop :=
  ∀ scope ∈ table.scopes, ∀ declared ∈ scope.names, declared.ty ≠ .error

instance (table : ScopeTable) : Decidable table.Unpoisoned :=
  inferInstanceAs (Decidable (∀ scope ∈ table.scopes, ∀ declared ∈ scope.names,
    declared.ty ≠ .error))

/-- The names in a view are names of scopes of the table. -/
theorem Chain.names_mem {scopes : Array Scope} {index : Nat} (chain : Chain scopes index stack) :
    ∀ names ∈ stack, ∃ scope ∈ scopes, scope.names = names := by
  induction chain with
  | outermost found =>
      intro names member
      cases List.mem_singleton.mp member
      exact ⟨_, Array.mem_of_getElem? found, rfl⟩
  | inner found older around inductionHypothesis =>
      intro names member
      rcases List.mem_cons.mp member with rfl | further
      · exact ⟨_, Array.mem_of_getElem? found, rfl⟩
      · exact inductionHypothesis names further

theorem Views.sound (views : table.Views stack) (unpoisoned : table.Unpoisoned) :
    Typing.Sound stack.context := by
  intro name ty resolved
  rcases ScopeStack.resolves_iff.mp resolved with ⟨declared, found, rfl⟩
  rcases List.exists_of_findSome?_eq_some found with ⟨names, member, here⟩
  rcases Chain.names_mem views names member with ⟨scope, inTable, rfl⟩
  exact unpoisoned scope inTable declared (List.mem_of_find?_eq_some here)

end ScopeTable

namespace Analyzer

/-- The scopes of an analyzer have a view behind each operation. -/
theorem Operation.apply_views (operation : Operation) {analyzer : Analyzer} {names : List Declared}
    {outer : ScopeStack} (views : analyzer.scopes.Views (names :: outer)) :
    ∃ innermost around, (operation.apply analyzer).scopes.Views (innermost :: around) := by
  cases operation with
  | setStrict strict => exact ⟨names, outer, views⟩
  | clearErrors => exact ⟨names, outer, views⟩
  | scopes operation => exact views.perform operation
  | check statement => exact ⟨_, outer, Statement.checkAll_views _ [statement] views⟩
  | analyze program => exact ⟨_, outer, Statement.checkAll_views _ program.statements views⟩

theorem perform_views (operations : List Operation) :
    ∃ names outer, (perform operations).scopes.Views (names :: outer) := by
  unfold perform
  apply List.foldlRecOn (motive := fun analyzer : Analyzer =>
    ∃ names outer, analyzer.scopes.Views (names :: outer))
  · exact ⟨[], [], ScopeTable.outermost_views⟩
  · intro analyzer viewed operation _
    rcases viewed with ⟨names, outer, views⟩
    exact operation.apply_views views

end Analyzer

end StagedAnalysis
