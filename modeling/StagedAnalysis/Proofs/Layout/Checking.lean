import StagedAnalysis.Checking.Analyzer
import StagedAnalysis.Proofs.Checking.Traces
import StagedAnalysis.Proofs.Layout.Relocation
/-!
Checking does not depend on places.

Looking a name up finds the same declaration at its other place, so an expression keeps its type,
the scopes behind a statement are those behind the relocated statement, and what is wrong is the
same at other places. Both programs and tables of scopes are relocated; the proofs follow the trees.
-/
namespace StagedAnalysis

variable {relocation : Relocation}

/-! ### Scopes -/

theorem Declared.relocate_name (declared : Declared) :
    (declared.relocate relocation).name = declared.name :=
  rfl

theorem Scope.find?_relocate (scope : Scope) (name : String) :
    (scope.relocate relocation).find? name =
      (scope.find? name).map (·.relocate relocation) := by
  rw [find?, relocate, List.find?_map]
  rfl

namespace ScopeTable

variable (table : ScopeTable)

theorem outermost_relocate : outermost.relocate relocation = outermost := by
  simp [outermost, relocate, Scope.relocate]

theorem relocate_current : (table.relocate relocation).current = table.current := rfl

theorem getElem?_relocate (index : Nat) :
    (table.relocate relocation).scopes[index]? =
      table.scopes[index]?.map (·.relocate relocation) :=
  Array.getElem?_map

theorem enter_relocate : (table.relocate relocation).enter = table.enter.relocate relocation := by
  simp [enter, relocate, nextScope, Scope.relocate]

theorem leave_relocate : (table.relocate relocation).leave = table.leave.relocate relocation := by
  rw [leave, leave, relocate_current, getElem?_relocate]
  cases table.scopes[table.current]? with
  | none => rfl
  | some scope =>
      obtain ⟨parent?, names⟩ := scope
      cases parent? <;> rfl

theorem lookupLocal?_relocate (name : String) :
    (table.relocate relocation).lookupLocal? name =
      (table.lookupLocal? name).map (·.relocate relocation) := by
  rw [lookupLocal?, lookupLocal?, relocate_current, getElem?_relocate]
  cases table.scopes[table.current]? with
  | none => rfl
  | some scope => exact scope.find?_relocate name

theorem lookupFrom?_relocate (name : String) (steps index : Nat) :
    (table.relocate relocation).lookupFrom? name steps index =
      (table.lookupFrom? name steps index).map (·.relocate relocation) := by
  induction steps generalizing index with
  | zero => rfl
  | succ steps inductionHypothesis =>
      rw [lookupFrom?, lookupFrom?, getElem?_relocate]
      cases table.scopes[index]? with
      | none => rfl
      | some scope =>
          simp only [Option.map_some, Scope.find?_relocate]
          cases scope.find? name with
          | some declared => rfl
          | none =>
              obtain ⟨parent?, names⟩ := scope
              cases parent? with
              | none => rfl
              | some parent => exact inductionHypothesis parent

theorem lookup?_relocate (name : String) :
    (table.relocate relocation).lookup? name =
      (table.lookup? name).map (·.relocate relocation) := by
  rw [lookup?, lookup?, lookupFrom?_relocate]
  simp only [relocate, Array.size_map]

theorem modify_relocate (index : Nat) (declared : Declared) :
    (table.scopes.map (·.relocate relocation)).modify index
        (·.insert (declared.relocate relocation)) =
      (table.scopes.modify index (·.insert declared)).map (·.relocate relocation) := by
  apply Array.ext_getElem?
  intro other
  rw [Array.getElem?_map, Array.getElem?_modify, Array.getElem?_modify, Array.getElem?_map]
  by_cases same : index = other
  · rw [if_pos same, if_pos same]
    cases table.scopes[other]? <;> rfl
  · rw [if_neg same, if_neg same]

theorem define_relocate (declared : Declared) :
    (table.relocate relocation).define (declared.relocate relocation) =
      match table.define declared with
      | .ok extended => .ok (extended.relocate relocation)
      | .error error => .error (error.relocate relocation) := by
  rw [define, define, Declared.relocate_name, lookupLocal?_relocate]
  cases table.lookupLocal? declared.name with
  | some existing => rfl
  | none =>
      have changed := @modify_relocate relocation table table.current declared
      exact congrArg (fun scopes => Except.ok (ScopeTable.mk scopes table.current)) changed

end ScopeTable

/-! ### Expressions -/

theorem AnalysisError.mismatch_relocate (expected got : Ty) (span : Span) :
    (mismatch expected got span).relocate relocation =
      mismatch expected got (relocation.move span) :=
  rfl

theorem BinaryOp.check_relocate (op : BinaryOp) (left right : Ty) (widening : Bool)
    (span : Span) :
    op.check left right widening (relocation.move span) =
      ((op.check left right widening span).1,
        (op.check left right widening span).2.map (·.relocate relocation)) := by
  rw [check, check]
  split
  · rfl
  · split <;> rfl

theorem UnaryOp.check_relocate (op : UnaryOp) (operand : Ty) (span : Span) :
    op.check operand (relocation.move span) =
      ((op.check operand span).1, (op.check operand span).2.map (·.relocate relocation)) := by
  rw [check, check]
  split <;> rfl

theorem Ty.checkStore_relocate (target value : Ty) (widening : Bool) (span : Span) :
    target.checkStore value widening (relocation.move span) =
      (target.checkStore value widening span).map (·.relocate relocation) := by
  rw [checkStore, checkStore]
  split <;> rfl

section Checking

variable (widening : Bool) (table : ScopeTable)

theorem Identifier.relocate_name (name : Identifier) :
    (name.relocate relocation).name = name.name :=
  rfl

theorem Identifier.check_relocate (name : Identifier) :
    (name.relocate relocation).check (table.relocate relocation) =
      ((name.check table).1, (name.check table).2.map (·.relocate relocation)) := by
  rw [check, check, relocate_name, ScopeTable.lookup?_relocate]
  cases table.lookup? name.name <;> rfl

theorem Expression.check_relocate (expression : Expression) :
    (expression.relocate relocation).check widening (table.relocate relocation) =
      ((expression.check widening table).1,
        (expression.check widening table).2.map (·.relocate relocation)) := by
  induction expression with
  | literal value span => rfl
  | identifier name => exact name.check_relocate table
  | binary op left right span leftSame rightSame =>
      simp only [relocate, check, leftSame, rightSame, BinaryOp.check_relocate, List.map_append]
  | unary op operand span same =>
      simp only [relocate, check, same, UnaryOp.check_relocate, List.map_append]

theorem Expression.checkCondition_relocate (condition : Expression) :
    (condition.relocate relocation).checkCondition widening (table.relocate relocation) =
      (condition.checkCondition widening table).map (·.relocate relocation) := by
  rw [checkCondition, checkCondition, check_relocate, relocate_span]
  dsimp only
  split
  · rfl
  · rw [List.map_append, List.map_singleton, AnalysisError.mismatch_relocate]

/-! ### Statements -/

theorem Declaration.check_relocate (declared : Declaration) :
    (declared.relocate relocation).check widening (table.relocate relocation) =
      ((declared.check widening table).1.relocate relocation,
        (declared.check widening table).2.map (·.relocate relocation)) := by
  obtain ⟨ty, name, value?, span⟩ := declared
  have defined := @ScopeTable.define_relocate relocation table ⟨name.name, ty, name.span⟩
  change (table.relocate relocation).define ⟨name.name, ty, relocation.move name.span⟩ = _
    at defined
  apply Prod.ext
  · rw [check_scopes, check_scopes]
    dsimp only [relocate, Identifier.relocate]
    rw [defined]
    cases table.define ⟨name.name, ty, name.span⟩ <;> rfl
  · rw [check_errors, check_errors, List.map_append]
    dsimp only [relocate, Identifier.relocate]
    rw [defined]
    congr 1
    · cases value? with
      | none => rfl
      | some value =>
          simp only [Option.map_some, Option.getD_some, Expression.check_relocate,
            Expression.relocate_span, Ty.checkStore_relocate, List.map_append]
    · cases table.define ⟨name.name, ty, name.span⟩ <;> rfl

theorem Assignment.check_relocate (stored : Assignment) :
    (stored.relocate relocation).check widening (table.relocate relocation) =
      (stored.check widening table).map (·.relocate relocation) := by
  obtain ⟨target, op, value, span⟩ := stored
  cases steps : op.step? with
  | none =>
      simp only [check, relocate, steps, Identifier.check_relocate, Expression.check_relocate,
        Expression.relocate_span, Ty.checkStore_relocate, List.map_append, List.map_nil]
  | some step =>
      simp only [check, relocate, steps, Identifier.check_relocate, Expression.check_relocate,
        Expression.relocate_span, BinaryOp.check_relocate, Ty.checkStore_relocate,
        List.map_append]

theorem LoopStart.check_relocate (start : LoopStart) :
    (start.relocate relocation).check widening (table.relocate relocation) =
      ((start.check widening table).1.relocate relocation,
        (start.check widening table).2.map (·.relocate relocation)) := by
  cases start with
  | nothing => rfl
  | declaration declared => exact declared.check_relocate widening table
  | assignment stored =>
      exact congrArg (Prod.mk (table.relocate relocation)) (stored.check_relocate widening table)

/-- What is wrong with a part that may be missing. -/
theorem reports_relocate {α : Type} (part? : Option α) (place : α → α)
    {before after : α → List AnalysisError}
    (each : ∀ part, after (place part) = (before part).map (·.relocate relocation)) :
    ((part?.map place).map after).getD [] =
      ((part?.map before).getD []).map (·.relocate relocation) := by
  cases part? with
  | none => rfl
  | some part => exact each part

namespace Statement

mutual

theorem check_relocate (statement : Statement) (table : ScopeTable) :
    (statement.relocate relocation).check widening (table.relocate relocation) =
      ((statement.check widening table).1.relocate relocation,
        (statement.check widening table).2.map (·.relocate relocation)) := by
  cases statement with
  | declaration declared => exact declared.check_relocate widening table
  | assignment stored =>
      exact congrArg (Prod.mk (table.relocate relocation)) (stored.check_relocate widening table)
  | ifThen condition branch span =>
      rw [relocate, check_ifThen, check_ifThen, ScopeTable.enter_relocate, check_relocate branch,
        ScopeTable.leave_relocate, condition.checkCondition_relocate, List.map_append]
  | ifElse condition branch otherwise span =>
      rw [relocate, check_ifElse, check_ifElse, ScopeTable.enter_relocate, check_relocate branch,
        ScopeTable.leave_relocate, ScopeTable.enter_relocate, check_relocate otherwise,
        ScopeTable.leave_relocate, condition.checkCondition_relocate, List.map_append,
        List.map_append]
  | whileLoop condition body span =>
      rw [relocate, check_whileLoop, check_whileLoop, ScopeTable.enter_relocate,
        check_relocate body, ScopeTable.leave_relocate, condition.checkCondition_relocate,
        List.map_append]
  | forLoop start condition? update? body span =>
      have conditionSame (header : ScopeTable) :=
        reports_relocate condition? (·.relocate relocation) fun condition =>
          condition.checkCondition_relocate widening header
      have updateSame (header : ScopeTable) :=
        reports_relocate update? (·.relocate relocation) fun update =>
          update.check_relocate widening header
      rw [relocate, check_forLoop, check_forLoop, ScopeTable.enter_relocate,
        start.check_relocate, ScopeTable.enter_relocate, check_relocate body,
        ScopeTable.leave_relocate, ScopeTable.leave_relocate, conditionSame, updateSame,
        List.map_append, List.map_append, List.map_append]
  | print value span =>
      simp only [relocate, check, value.check_relocate]
  | block body span =>
      rw [relocate, check_block, check_block, ScopeTable.enter_relocate, checkAll_relocate body,
        ScopeTable.leave_relocate]
  | empty span => rfl

theorem checkAll_relocate (statements : List Statement) (table : ScopeTable) :
    checkAll widening (table.relocate relocation) (relocateAll relocation statements) =
      ((checkAll widening table statements).1.relocate relocation,
        (checkAll widening table statements).2.map (·.relocate relocation)) := by
  cases statements with
  | nil => rfl
  | cons statement statements =>
      rw [relocateAll, checkAll_cons, checkAll_cons, check_relocate statement,
        checkAll_relocate statements, List.map_append]

end

end Statement

end Checking

/-- The relocated program has the same faults at their other places. -/
theorem Program.check_relocate (program : Program) (strict : Bool) :
    (program.relocate relocation).check strict =
      (program.check strict).map (·.relocate relocation) := by
  have whole := @Statement.checkAll_relocate relocation (!strict) program.statements .outermost
  rw [ScopeTable.outermost_relocate] at whole
  rw [check, check, Analyzer.analyze, Analyzer.analyze]
  simp only [Analyzer.initial, relocate, whole, List.nil_append]

end StagedAnalysis
