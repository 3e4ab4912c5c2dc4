import StagedAnalysis.AnalysisError
import StagedAnalysis.Ty
/-!
Nested scopes of names. All scopes that were ever opened are kept in a row in the order of
opening, each with the scope that it was opened in; one of them is the current one. The outermost
scope is opened at the start and never left.

Looking a name up goes outwards from the current scope. A scope is opened inside of an older one,
so no more steps are needed than there are scopes.
-/
namespace StagedAnalysis

structure Declared where
  name : String
  ty : Ty
  span : Span
  deriving DecidableEq

structure Scope where
  parent? : Option Nat
  names : List Declared
  deriving DecidableEq

namespace Scope

def find? (scope : Scope) (name : String) : Option Declared :=
  scope.names.find? (·.name == name)

def insert (scope : Scope) (declared : Declared) : Scope :=
  { scope with names := declared :: scope.names }

theorem find?_insert (scope : Scope) (declared : Declared) (name : String) :
    (scope.insert declared).find? name
      = if declared.name = name then some declared else scope.find? name := by
  by_cases same : declared.name = name
  · simp [find?, insert, same]
  · simp [find?, insert, same, beq_eq_false_iff_ne.mpr same]

end Scope

structure ScopeTable where
  scopes : Array Scope
  current : Nat
  deriving DecidableEq

namespace ScopeTable

def outermost : ScopeTable :=
  ⟨#[⟨none, []⟩], 0⟩

def nextScope (table : ScopeTable) : Nat :=
  table.scopes.size

def enter (table : ScopeTable) : ScopeTable :=
  let opened := table.nextScope
  ⟨table.scopes.push ⟨some table.current, []⟩, opened⟩

def leave (table : ScopeTable) : ScopeTable :=
  match table.scopes[table.current]?.bind (·.parent?) with
  | some parent => { table with current := parent }
  | none => table

def lookupLocal? (table : ScopeTable) (name : String) : Option Declared :=
  table.scopes[table.current]?.bind (·.find? name)

/-- The name in one scope or, within some steps, in the scopes around it. -/
def lookupFrom? (table : ScopeTable) (name : String) : Nat → Nat → Option Declared
  | 0, _ => none
  | steps + 1, index =>
    match table.scopes[index]? with
    | none => none
    | some scope =>
      match scope.find? name with
      | some declared => some declared
      | none => scope.parent?.bind (table.lookupFrom? name steps)

def lookup? (table : ScopeTable) (name : String) : Option Declared :=
  table.lookupFrom? name table.scopes.size table.current

/-- Declares a name in the current scope, which must not have it yet. -/
def define (table : ScopeTable) (declared : Declared) : Except AnalysisError ScopeTable :=
  match table.lookupLocal? declared.name with
  | some existing => .error (.duplicateDeclaration declared.name existing.span declared.span)
  | none =>
    .ok { table with scopes := table.scopes.modify table.current (·.insert declared) }

end ScopeTable

end StagedAnalysis
