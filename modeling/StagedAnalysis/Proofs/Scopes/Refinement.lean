import Mathlib.Logic.Function.Basic
import StagedAnalysis.Proofs.Scopes
/-!
The table of scopes refines a stack of maps.

The table keeps every scope that was ever opened and finds its way by numbers; the stack forgets a
scope when it is left. Whatever is asked of the two, in whatever order, they give the same answers.
-/
namespace StagedAnalysis

inductive ScopeOperation where
  | enter
  | leave
  | define (declared : Declared)
  | lookup (name : String)
  | lookupLocal (name : String)
  deriving DecidableEq

inductive ScopeAnswer where
  | opened (scope : Nat)
  | left
  | defined
  | refused (error : AnalysisError)
  | found (declared? : Option Declared)
  deriving DecidableEq

def ScopeAnswer.opened? : ScopeAnswer → Option Nat
  | opened scope => some scope
  | _ => none

def ScopeOperation.runAll {State : Type}
    (perform : State → ScopeOperation → ScopeAnswer × State) :
    State → List ScopeOperation → List ScopeAnswer × State
  | state, [] => ([], state)
  | state, operation :: operations =>
    let (answer, next) := perform state operation
    let (answers, last) := runAll perform next operations
    (answer :: answers, last)

theorem ScopeOperation.runAll_cons {State : Type}
    (perform : State → ScopeOperation → ScopeAnswer × State) (state : State)
    (operation : ScopeOperation) (operations : List ScopeOperation) :
    runAll perform state (operation :: operations) =
      ((perform state operation).1 :: (runAll perform (perform state operation).2 operations).1,
        (runAll perform (perform state operation).2 operations).2) :=
  rfl

def ScopeTable.perform (table : ScopeTable) : ScopeOperation → ScopeAnswer × ScopeTable
  | .enter => (.opened table.nextScope, table.enter)
  | .leave => (.left, table.leave)
  | .define declared =>
    match table.define declared with
    | .ok extended => (.defined, extended)
    | .error error => (.refused error, table)
  | .lookup name => (.found (table.lookup? name), table)
  | .lookupLocal name => (.found (table.lookupLocal? name), table)

/-! ### Stacks of maps -/

abbrev NameMap := String → Option Declared

structure MapStack where
  top : NameMap
  outer : List NameMap
  opened : Nat

namespace MapStack

def outermost : MapStack :=
  ⟨fun _ => none, [], 0⟩

def perform (maps : MapStack) : ScopeOperation → ScopeAnswer × MapStack
  | .enter => (.opened (maps.opened + 1), ⟨fun _ => none, maps.top :: maps.outer, maps.opened + 1⟩)
  | .leave =>
    match maps.outer with
    | [] => (.left, maps)
    | top :: outer => (.left, { maps with top := top, outer := outer })
  | .define declared =>
    match maps.top declared.name with
    | some existing =>
      (.refused (.duplicateDeclaration declared.name existing.span declared.span), maps)
    | none => (.defined, { maps with top := Function.update maps.top declared.name (some declared) })
  | .lookup name => (.found ((maps.top :: maps.outer).findSome? (· name)), maps)
  | .lookupLocal name => (.found (maps.top name), maps)

/-- What a list of declarations is as a map: the first one of a name counts. -/
def ofNames (names : List Declared) : NameMap :=
  fun name => names.find? (·.name == name)

theorem ofNames_cons (declared : Declared) (names : List Declared) :
    ofNames (declared :: names) =
      Function.update (ofNames names) declared.name (some declared) := by
  funext name
  by_cases same : name = declared.name
  · subst same
    rw [Function.update_self]
    simp [ofNames]
  · rw [Function.update_of_ne same]
    have different : (declared.name == name) = false := beq_eq_false_iff_ne.mpr (Ne.symm same)
    simp [ofNames, different]

theorem findSome?_ofNames (stack : ScopeStack) (name : String) :
    (stack.map ofNames).findSome? (· name) = stack.find? name := by
  rw [List.findSome?_map, ScopeStack.find?]
  rfl

end MapStack

namespace ScopeTable

variable {table : ScopeTable} {maps : MapStack}

/-! ### The same answers -/

/-- The stack holds the maps of the scopes from the current one outwards. -/
def Refines (table : ScopeTable) (maps : MapStack) : Prop :=
  ∃ names outer, table.Views (names :: outer) ∧ table.scopes.size = maps.opened + 1 ∧
    maps.top = MapStack.ofNames names ∧ maps.outer = outer.map MapStack.ofNames

theorem outermost_refines : outermost.Refines .outermost :=
  ⟨[], [], outermost_views, rfl, rfl, rfl⟩

theorem define_size {declared : Declared} {extended : ScopeTable}
    (defined : table.define declared = .ok extended) :
    extended.scopes.size = table.scopes.size := by
  unfold ScopeTable.define at defined
  split at defined
  · cases defined
  · cases defined
    exact Array.size_modify

theorem leave_scopes (table : ScopeTable) : table.leave.scopes = table.scopes := by
  unfold ScopeTable.leave
  split <;> rfl

theorem Refines.enter (refines : table.Refines maps) :
    table.enter.Refines (maps.perform .enter).2 := by
  obtain ⟨names, outer, views, size, top, below⟩ := refines
  refine ⟨[], names :: outer, views.enter, ?_, rfl, ?_⟩
  · rw [ScopeTable.enter, Array.size_push, size]
    rfl
  · simp [MapStack.perform, top, below]

theorem Refines.leave (refines : table.Refines maps) :
    table.leave.Refines (maps.perform .leave).2 := by
  obtain ⟨names, outer, views, size, top, below⟩ := refines
  cases outer with
  | nil =>
      rw [views.leave_outermost, MapStack.perform, below]
      exact ⟨names, [], views, size, top, below⟩
  | cons next outer =>
      rw [MapStack.perform, below]
      exact ⟨next, outer, views.leave (List.cons_ne_nil _ _),
        (congrArg Array.size table.leave_scopes).trans size, rfl, rfl⟩

/-- One operation: the answers are the same, and so is what the next one can see. -/
theorem Refines.perform (refines : table.Refines maps) (operation : ScopeOperation) :
    (table.perform operation).1 = (maps.perform operation).1 ∧
      (table.perform operation).2.Refines (maps.perform operation).2 := by
  obtain ⟨names, outer, views, size, top, below⟩ := id refines
  cases operation with
  | enter =>
      refine ⟨?_, refines.enter⟩
      rw [ScopeTable.perform, MapStack.perform, nextScope, size]
  | leave =>
      refine ⟨?_, refines.leave⟩
      unfold ScopeTable.perform MapStack.perform
      cases maps.outer <;> rfl
  | define declared =>
      rw [ScopeTable.perform, MapStack.perform, top]
      cases found : MapStack.ofNames names declared.name with
      | some existing =>
          rw [views.define_of_some found]
          exact ⟨rfl, refines⟩
      | none =>
          obtain ⟨extended, defined, extendedViews⟩ := views.define_of_none found
          rw [defined]
          refine ⟨rfl, declared :: names, outer, extendedViews, ?_, ?_, below⟩
          · rw [define_size defined, size]
          · exact (MapStack.ofNames_cons declared names).symm
  | lookup name =>
      refine ⟨?_, refines⟩
      rw [ScopeTable.perform, MapStack.perform, views.lookup?, top, below, ← List.map_cons,
        MapStack.findSome?_ofNames]
  | lookupLocal name =>
      refine ⟨?_, refines⟩
      rw [ScopeTable.perform, MapStack.perform, views.lookupLocal?, top]
      rfl

theorem Refines.runAll (refines : table.Refines maps) (operations : List ScopeOperation) :
    (ScopeOperation.runAll ScopeTable.perform table operations).1 =
        (ScopeOperation.runAll MapStack.perform maps operations).1 ∧
      (ScopeOperation.runAll ScopeTable.perform table operations).2.Refines
        (ScopeOperation.runAll MapStack.perform maps operations).2 := by
  induction operations generalizing table maps with
  | nil => exact ⟨rfl, refines⟩
  | cons operation operations inductionHypothesis =>
      obtain ⟨answer, next⟩ := refines.perform operation
      obtain ⟨answers, last⟩ := inductionHypothesis next
      rw [ScopeOperation.runAll_cons, ScopeOperation.runAll_cons, answer, answers]
      exact ⟨rfl, last⟩

/-! ### The numbers of scopes -/

/-- Only opening a scope gives out a number, the next one. -/
theorem perform_opened (table : ScopeTable) (operation : ScopeOperation) :
    (table.perform operation).1.opened? =
        (if operation = .enter then some table.scopes.size else none) ∧
      (table.perform operation).2.scopes.size =
        table.scopes.size + if operation = .enter then 1 else 0 := by
  cases operation with
  | enter => exact ⟨rfl, Array.size_push _⟩
  | leave => exact ⟨rfl, congrArg Array.size table.leave_scopes⟩
  | define declared =>
      rw [ScopeTable.perform]
      cases defined : table.define declared with
      | ok extended => exact ⟨rfl, define_size defined⟩
      | error error => exact ⟨rfl, rfl⟩
  | lookup name => exact ⟨rfl, rfl⟩
  | lookupLocal name => exact ⟨rfl, rfl⟩

theorem runAll_opened (table : ScopeTable) (operations : List ScopeOperation) :
    (ScopeOperation.runAll perform table operations).1.filterMap ScopeAnswer.opened? =
      List.range' table.scopes.size (operations.count .enter) := by
  induction operations generalizing table with
  | nil => rfl
  | cons operation operations inductionHypothesis =>
      obtain ⟨answer, size⟩ := table.perform_opened operation
      have others := inductionHypothesis (table.perform operation).2
      rw [size] at others
      by_cases opens : operation = .enter
      · rw [if_pos opens] at answer others
        rw [ScopeOperation.runAll_cons, List.filterMap_cons_some answer, others, opens,
          List.count_cons_self, List.range'_succ]
      · rw [if_neg opens] at answer others
        rw [ScopeOperation.runAll_cons, List.filterMap_cons_none answer, others,
          List.count_cons_of_ne opens]
        rfl

/-! ### Looking up ends -/

def Founded (table : ScopeTable) : Prop :=
  ∀ (index : Nat) (scope : Scope) (parent : Nat), table.scopes[index]? = some scope →
    scope.parent? = some parent → parent < index

theorem outermost_founded : outermost.Founded := by
  intro index scope parent found inside
  have outer : scope ∈ #[(⟨none, []⟩ : Scope)] := Array.mem_of_getElem? found
  rw [Array.mem_singleton.mp outer] at inside
  cases inside

theorem Founded.enter (founded : table.Founded) (within : table.current < table.scopes.size) :
    table.enter.Founded := by
  intro index scope parent found inside
  rw [ScopeTable.enter, Array.getElem?_push] at found
  split at found
  · rename_i newest
    cases found
    cases inside
    omega
  · exact founded index scope parent found inside

theorem Founded.define (founded : table.Founded) {declared : Declared} {extended : ScopeTable}
    (defined : table.define declared = .ok extended) : extended.Founded := by
  unfold ScopeTable.define at defined
  split at defined
  · cases defined
  · cases defined
    intro index scope parent found inside
    rw [Array.getElem?_modify] at found
    split at found
    · obtain ⟨old, oldFound, rfl⟩ := Option.map_eq_some_iff.mp found
      exact founded index old parent oldFound inside
    · exact founded index scope parent found inside

theorem Founded.perform (founded : table.Founded) (within : table.current < table.scopes.size)
    (operation : ScopeOperation) : (table.perform operation).2.Founded := by
  cases operation with
  | enter => exact founded.enter within
  | leave =>
      intro index scope parent found inside
      rw [ScopeTable.perform, leave_scopes] at found
      exact founded index scope parent found inside
  | define declared =>
      rw [ScopeTable.perform]
      cases defined : table.define declared with
      | ok extended => exact founded.define defined
      | error error => exact founded
  | lookup name => exact founded
  | lookupLocal name => exact founded

theorem Refines.runAll_founded (refines : table.Refines maps) (founded : table.Founded)
    (operations : List ScopeOperation) :
    (ScopeOperation.runAll ScopeTable.perform table operations).2.Founded := by
  induction operations generalizing table maps with
  | nil => exact founded
  | cons operation operations inductionHypothesis =>
      obtain ⟨names, outer, views, _⟩ := id refines
      exact inductionHypothesis (refines.perform operation).2
        (founded.perform views.lt_size operation)

/-- How a lookup goes outwards from a scope, and what it comes back with. Where parents lead round
in a circle, or to a scope that is not there, it does not come back. -/
inductive LooksUp (table : ScopeTable) (name : String) : Nat → Option Declared → Prop
  | here {index : Nat} {scope : Scope} {declared : Declared}
      (reached : table.scopes[index]? = some scope) (has : scope.find? name = some declared) :
      LooksUp table name index (some declared)
  | nowhere {index : Nat} {scope : Scope} (reached : table.scopes[index]? = some scope)
      (lacks : scope.find? name = none) (last : scope.parent? = none) :
      LooksUp table name index none
  | outwards {index parent : Nat} {scope : Scope} {declared? : Option Declared}
      (reached : table.scopes[index]? = some scope) (lacks : scope.find? name = none)
      (around : scope.parent? = some parent) (onward : LooksUp table name parent declared?) :
      LooksUp table name index declared?

theorem Chain.looksUp {index : Nat} {stack : ScopeStack} (chain : Chain table.scopes index stack)
    (name : String) : table.LooksUp name index (stack.find? name) := by
  induction chain with
  | @outermost index names found =>
      rw [ScopeStack.find?_cons]
      cases has : names.find? (·.name == name) with
      | some declared => exact .here found has
      | none => exact .nowhere found has rfl
  | @inner index parent names outer found older around inductionHypothesis =>
      rw [ScopeStack.find?_cons]
      cases has : names.find? (·.name == name) with
      | some declared => exact .here found has
      | none => exact .outwards found has rfl inductionHypothesis

/-- The table of scopes refines a stack of maps: whatever operations are done on a new table, it
gives all the answers of the stack, and the scopes that are opened get the numbers one, two and so
on, whatever was left in between. In every table that is reached the scope around a scope is an
older one, and looking a name up comes back with what the table answers. -/
theorem refines_maps (operations : List ScopeOperation) :
    let reached := ScopeOperation.runAll ScopeTable.perform outermost operations
    reached.1 = (ScopeOperation.runAll MapStack.perform .outermost operations).1 ∧
      reached.1.filterMap ScopeAnswer.opened? = List.range' 1 (operations.count .enter) ∧
      reached.2.Founded ∧
      ∀ name, reached.2.LooksUp name reached.2.current (reached.2.lookup? name) := by
  obtain ⟨answers, names, outer, views, _⟩ := outermost_refines.runAll operations
  refine ⟨answers, runAll_opened outermost operations,
    outermost_refines.runAll_founded outermost_founded operations, fun name => ?_⟩
  rw [views.lookup?]
  exact Chain.looksUp views name

end ScopeTable

end StagedAnalysis
