import StagedAnalysis.Checking.Statement
import StagedAnalysis.Proofs.Scopes
/-!
What checking leaves behind in the scopes.

Whatever is wrong with a statement, checking it ends in the scope that it began in, and of all that
can be seen from there only the innermost scope may have got one more name: the one that the
statement itself declares.
-/
namespace StagedAnalysis

/-! ### Names left behind -/

/-- The names of the innermost scope behind a declaration. A name that is there stays as it is. -/
def Declaration.extend (declared : Declaration) (names : List Declared) : List Declared :=
  match names.find? (·.name == declared.name.name) with
  | some _ => names
  | none => ⟨declared.name.name, declared.ty, declared.name.span⟩ :: names

/-- Behind a declaration a name is found where it was, else where it is declared now. -/
theorem Declaration.find?_extend (declared : Declaration) (names : List Declared) (name : String) :
    (declared.extend names).find? (·.name == name) =
      (names.find? (·.name == name)).or (if declared.name.name = name
        then some ⟨declared.name.name, declared.ty, declared.name.span⟩ else none) := by
  unfold extend
  by_cases named : declared.name.name = name
  · rw [named, if_pos rfl]
    cases found : names.find? (·.name == name) with
    | some existing => rw [found]; rfl
    | none => exact List.find?_cons_of_pos (beq_self_eq_true name)
  · rw [if_neg named, Option.or_none]
    cases names.find? (·.name == declared.name.name) with
    | some existing => rfl
    | none => exact List.find?_cons_of_neg (ne_true_of_eq_false (beq_eq_false_iff_ne.mpr named))

def LoopStart.extend : LoopStart → List Declared → List Declared
  | declaration declared => declared.extend
  | _ => id

namespace Statement

def extend : Statement → List Declared → List Declared
  | declaration declared => declared.extend
  | _ => id

def extendAll : List Statement → List Declared → List Declared
  | [], names => names
  | statement :: statements, names => extendAll statements (statement.extend names)

end Statement

/-! ### Equations of the checker -/

section Equations

variable (widening : Bool) (table : ScopeTable)

theorem Declaration.check_errors (declared : Declaration) :
    (declared.check widening table).2 =
      (declared.value?.map fun value => (value.check widening table).2 ++
        declared.ty.checkStore (value.check widening table).1 widening value.span).getD [] ++
      match table.define ⟨declared.name.name, declared.ty, declared.name.span⟩ with
      | .ok _ => []
      | .error error => [error] := by
  rw [check]
  cases declared.value? <;> cases table.define _ <;> simp

theorem Declaration.check_scopes (declared : Declaration) :
    (declared.check widening table).1 =
      match table.define ⟨declared.name.name, declared.ty, declared.name.span⟩ with
      | .ok extended => extended
      | .error _ => table := by
  rw [check]
  cases table.define _ <;> rfl

namespace Statement

variable (condition : Expression) (branch otherwise : Statement) (span : Span)

theorem check_ifThen :
    (ifThen condition branch span).check widening table =
      ((branch.check widening table.enter).1.leave,
        condition.checkCondition widening table ++ (branch.check widening table.enter).2) := by
  rw [check]

theorem check_ifElse :
    (ifElse condition branch otherwise span).check widening table =
      ((otherwise.check widening (branch.check widening table.enter).1.leave.enter).1.leave,
        condition.checkCondition widening table ++ (branch.check widening table.enter).2 ++
          (otherwise.check widening (branch.check widening table.enter).1.leave.enter).2) := by
  rw [check]

theorem check_whileLoop :
    (whileLoop condition branch span).check widening table =
      ((branch.check widening table.enter).1.leave,
        condition.checkCondition widening table ++ (branch.check widening table.enter).2) := by
  rw [check]

theorem check_forLoop (start : LoopStart) (condition? : Option Expression)
    (update? : Option Assignment) :
    (forLoop start condition? update? branch span).check widening table =
      ((branch.check widening (start.check widening table.enter).1.enter).1.leave.leave,
        (start.check widening table.enter).2 ++
          (condition?.map
            (·.checkCondition widening (start.check widening table.enter).1)).getD [] ++
          (update?.map (·.check widening (start.check widening table.enter).1)).getD [] ++
          (branch.check widening (start.check widening table.enter).1.enter).2) := by
  rw [check]

theorem check_block (body : List Statement) :
    (block body span).check widening table =
      ((checkAll widening table.enter body).1.leave, (checkAll widening table.enter body).2) := by
  rw [check]

theorem checkAll_cons (statement : Statement) (statements : List Statement) :
    checkAll widening table (statement :: statements) =
      ((checkAll widening (statement.check widening table).1 statements).1,
        (statement.check widening table).2 ++
          (checkAll widening (statement.check widening table).1 statements).2) := by
  rw [checkAll]

end Statement

end Equations

/-! ### Scopes behind a statement -/

variable (widening : Bool) {table : ScopeTable} {names : List Declared} {outer : ScopeStack}

theorem Declaration.check_views (declared : Declaration)
    (views : table.Views (names :: outer)) :
    (declared.check widening table).1.Views (declared.extend names :: outer) := by
  rw [check_scopes, extend]
  cases found : names.find? (·.name == declared.name.name) with
  | some existing =>
      rw [views.define_of_some found]
      exact views
  | none =>
      obtain ⟨extended, defined, extendedViews⟩ :=
        @ScopeTable.Views.define_of_none _ _ _ views
          ⟨declared.name.name, declared.ty, declared.name.span⟩ found
      rw [defined]
      exact extendedViews

theorem LoopStart.check_views (start : LoopStart) (views : table.Views (names :: outer)) :
    (start.check widening table).1.Views (start.extend names :: outer) := by
  cases start with
  | nothing => exact views
  | declaration declared => exact declared.check_views widening views
  | assignment stored => exact views

namespace Statement

mutual

theorem check_views (statement : Statement) {table : ScopeTable} {names : List Declared}
    {outer : ScopeStack} (views : table.Views (names :: outer)) :
    (statement.check widening table).1.Views (statement.extend names :: outer) := by
  have inside := views.enter
  cases statement with
  | declaration declared => exact declared.check_views widening views
  | assignment stored => exact views
  | ifThen condition branch span =>
      rw [check_ifThen]
      exact (check_views branch inside).leave (List.cons_ne_nil _ _)
  | ifElse condition branch otherwise span =>
      have between := (check_views branch inside).leave
        (List.cons_ne_nil _ _)
      rw [check_ifElse]
      exact (check_views otherwise between.enter).leave (List.cons_ne_nil _ _)
  | whileLoop condition body span =>
      rw [check_whileLoop]
      exact (check_views body inside).leave (List.cons_ne_nil _ _)
  | forLoop start condition? update? body span =>
      have header := start.check_views widening inside
      have around := (check_views body header.enter).leave
        (List.cons_ne_nil _ _)
      rw [check_forLoop]
      exact around.leave (List.cons_ne_nil _ _)
  | print value span => exact views
  | block body span =>
      rw [check_block]
      exact (checkAll_views body inside).leave (List.cons_ne_nil _ _)
  | empty span => exact views

theorem checkAll_views (statements : List Statement) {table : ScopeTable}
    {names : List Declared} {outer : ScopeStack} (views : table.Views (names :: outer)) :
    (checkAll widening table statements).1.Views (extendAll statements names :: outer) := by
  cases statements with
  | nil => exact views
  | cons statement statements =>
      rw [checkAll_cons]
      exact checkAll_views statements (check_views statement views)

end

end Statement

end StagedAnalysis
