import StagedAnalysis.Proofs.Checking.Analyzers
import StagedAnalysis.Proofs.Checking.Traces
import StagedAnalysis.Proofs.Scopes.Refinement
/-!
What a statement leaves as it was.

Checking a statement opens scopes and leaves them again, as many as it opened, so it ends in the
scope that it began in. The scopes that it opened stay in the table, but nothing leads to them: from
the current scope outwards every name is found where it was found before. A declaration adds its own
name, unless the scope has it already.
-/
namespace StagedAnalysis

namespace ScopeTable

variable {table middle later : ScopeTable}

/-! ### Back in the same scope -/

structure Keeps (table later : ScopeTable) : Prop where
  current : later.current = table.current
  parents : ∀ (index : Nat) (scope : Scope), table.scopes[index]? = some scope →
    ∃ same, later.scopes[index]? = some same ∧ same.parent? = scope.parent?

theorem Keeps.refl (table : ScopeTable) : table.Keeps table :=
  ⟨rfl, fun _ scope found => ⟨scope, found, rfl⟩⟩

theorem Keeps.trans (first : table.Keeps middle) (second : middle.Keeps later) :
    table.Keeps later := by
  constructor
  · exact second.current.trans first.current
  · intro index scope found
    rcases first.parents index scope found with ⟨between, foundBetween, sameParent⟩
    rcases second.parents index between foundBetween with ⟨last, foundLast, again⟩
    exact ⟨last, foundLast, again.trans sameParent⟩

theorem define_keeps {declared : Declared} {extended : ScopeTable}
    (defined : table.define declared = .ok extended) : table.Keeps extended := by
  unfold define at defined
  split at defined
  · cases defined
  · cases defined
    constructor
    · rfl
    · intro index scope found
      rw [Array.getElem?_modify, found]
      split
      · exact ⟨_, rfl, rfl⟩
      · exact ⟨_, rfl, rfl⟩

/-- What is done in a scope of its own ends outside again. -/
theorem Keeps.leave (inside : table.enter.Keeps later) : table.Keeps later.leave := by
  have opened : table.enter.scopes[table.nextScope]? = some ⟨some table.current, []⟩ :=
    Array.getElem?_push_size
  rcases inside.parents table.nextScope _ opened with ⟨innermost, found, parent⟩
  have entered : later.current = table.nextScope := inside.current
  constructor
  · unfold ScopeTable.leave
    rw [entered, found, Option.bind_some, parent]
  · intro index scope before
    have within := (Array.getElem?_eq_some_iff.mp before).1
    rw [leave_scopes]
    apply inside.parents
    unfold enter
    rw [Array.getElem?_push, if_neg (Nat.ne_of_lt within)]
    exact before

end ScopeTable

section Current

variable (widening : Bool) (table : ScopeTable)

theorem Declaration.check_keeps (declared : Declaration) :
    table.Keeps (declared.check widening table).1 := by
  rw [check_scopes]
  cases defined : table.define ⟨declared.name.name, declared.ty, declared.name.span⟩ with
  | ok extended => exact ScopeTable.define_keeps defined
  | error error => exact .refl table

theorem LoopStart.check_keeps (start : LoopStart) :
    table.Keeps (start.check widening table).1 := by
  cases start with
  | nothing => exact .refl table
  | declaration declared => exact declared.check_keeps widening table
  | assignment stored => exact .refl table

namespace Statement

mutual

/-- Every statement ends in the scope that it began in. -/
theorem check_keeps (statement : Statement) (table : ScopeTable) :
    table.Keeps (statement.check widening table).1 := by
  cases statement with
  | declaration declared => exact declared.check_keeps widening table
  | assignment stored => exact .refl table
  | ifThen condition branch span =>
      rw [check_ifThen]
      exact (check_keeps branch _).leave
  | ifElse condition branch otherwise span =>
      rw [check_ifElse]
      exact (check_keeps branch _).leave.trans (check_keeps otherwise _).leave
  | whileLoop condition body span =>
      rw [check_whileLoop]
      exact (check_keeps body _).leave
  | forLoop start condition? update? body span =>
      rw [check_forLoop]
      have header := start.check_keeps widening table.enter
      exact (header.trans (check_keeps body _).leave).leave
  | print value span => exact .refl table
  | block body span =>
      rw [check_block]
      exact (checkAll_keeps body _).leave
  | empty span => exact .refl table

theorem checkAll_keeps (statements : List Statement) (table : ScopeTable) :
    table.Keeps (checkAll widening table statements).1 := by
  cases statements with
  | nil => exact .refl table
  | cons statement statements =>
      rw [checkAll_cons]
      exact (check_keeps statement table).trans (checkAll_keeps statements _)

end

end Statement

end Current

/-! ### The same names -/

def Statement.newName? (table : ScopeTable) : Statement → Option Declared
  | declaration declared =>
    if table.lookupLocal? declared.name.name = none then
      some ⟨declared.name.name, declared.ty, declared.name.span⟩
    else none
  | _ => none

section Lookups

variable {widening : Bool} {table : ScopeTable} {names : List Declared} {outer : ScopeStack}

theorem Statement.find?_extend (views : table.Views (names :: outer)) (statement : Statement)
    (name : String) :
    (statement.extend names).find? (·.name == name) =
      ((statement.newName? table).filter (·.name == name)).or (names.find? (·.name == name)) := by
  cases statement with
  | declaration declared =>
      unfold extend newName?
      dsimp only
      rw [declared.find?_extend, views.lookupLocal?]
      by_cases named : declared.name.name = name
      · rw [named, if_pos rfl]
        cases names.find? (·.name == name) with
        | some existing => rfl
        | none => rw [if_pos rfl, Option.filter_some, if_pos (beq_self_eq_true name)]; rfl
      · rw [if_neg named, Option.or_none]
        split
        · rw [Option.filter_some, if_neg (mt beq_iff_eq.mp named)]
          rfl
        · rfl
  | _ => rfl

theorem Statement.lookup?_check (views : table.Views (names :: outer)) (statement : Statement)
    (name : String) :
    (statement.check widening table).1.lookup? name =
      ((statement.newName? table).filter (·.name == name)).or (table.lookup? name) := by
  rw [(statement.check_views widening views).lookup?, views.lookup?, ScopeStack.find?_cons,
    ScopeStack.find?_cons, statement.find?_extend views, Option.or_assoc]

theorem Statement.lookupLocal?_check (views : table.Views (names :: outer)) (statement : Statement)
    (name : String) :
    (statement.check widening table).1.lookupLocal? name =
      ((statement.newName? table).filter (·.name == name)).or (table.lookupLocal? name) := by
  rw [(statement.check_views widening views).lookupLocal?, views.lookupLocal?,
    statement.find?_extend views]

end Lookups

end StagedAnalysis
