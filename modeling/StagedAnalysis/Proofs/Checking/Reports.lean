import StagedAnalysis.Checking.Analyzer
import StagedAnalysis.Proofs.Checking.Expressions
import StagedAnalysis.Proofs.Checking.Traces
/-!
What checking reports: faults of names and types, and no others.
-/
namespace StagedAnalysis

def AboutMeaning (errors : List AnalysisError) : Prop :=
  ∀ error ∈ errors, error.stage? = some .semantic

namespace AboutMeaning

theorem nil : AboutMeaning [] :=
  List.forall_mem_nil _

theorem append {first second : List AnalysisError} (firstMeaning : AboutMeaning first)
    (secondMeaning : AboutMeaning second) : AboutMeaning (first ++ second) :=
  List.forall_mem_append.mpr ⟨firstMeaning, secondMeaning⟩

theorem singleton {error : AnalysisError} (found : error.stage? = some .semantic) :
    AboutMeaning [error] :=
  List.forall_mem_singleton.mpr found

end AboutMeaning

variable (widening : Bool) (table : ScopeTable)

theorem BinaryOp.check_aboutMeaning (op : BinaryOp) (left right : Ty) (span : Span) :
    AboutMeaning (op.check left right widening span).2 := by
  unfold check
  split
  · exact .nil
  · split
    · exact .nil
    · exact .singleton rfl

theorem UnaryOp.check_aboutMeaning (op : UnaryOp) (operand : Ty) (span : Span) :
    AboutMeaning (op.check operand span).2 := by
  unfold check
  split
  · exact .nil
  · exact .singleton rfl

theorem Ty.checkStore_aboutMeaning (target value : Ty) (span : Span) :
    AboutMeaning (target.checkStore value widening span) := by
  unfold checkStore
  split
  · exact .nil
  · exact .singleton rfl

theorem Identifier.check_aboutMeaning (name : Identifier) : AboutMeaning (name.check table).2 := by
  unfold check
  split
  · exact .nil
  · exact .singleton rfl

theorem Expression.check_aboutMeaning (expression : Expression) :
    AboutMeaning (expression.check widening table).2 := by
  induction expression with
  | literal value span => exact .nil
  | identifier name => exact name.check_aboutMeaning table
  | binary op left right span leftMeaning rightMeaning =>
      rw [check_binary]
      exact (leftMeaning.append rightMeaning).append (op.check_aboutMeaning widening _ _ span)
  | unary op operand span operandMeaning =>
      rw [check_unary]
      exact operandMeaning.append (op.check_aboutMeaning _ span)

theorem Expression.checkCondition_aboutMeaning (condition : Expression) :
    AboutMeaning (condition.checkCondition widening table) := by
  rw [checkCondition_eq]
  split
  · exact condition.check_aboutMeaning widening table
  · exact (condition.check_aboutMeaning widening table).append (.singleton rfl)

theorem Declaration.check_aboutMeaning (declared : Declaration) :
    AboutMeaning (declared.check widening table).2 := by
  rw [check_errors]
  refine .append ?_ ?_
  · cases declared.value? with
    | none => exact .nil
    | some value =>
        exact (value.check_aboutMeaning widening table).append
          (declared.ty.checkStore_aboutMeaning widening _ value.span)
  · unfold ScopeTable.define
    cases table.lookupLocal? declared.name.name with
    | none => exact .nil
    | some existing => exact .singleton rfl

theorem Assignment.check_aboutMeaning (stored : Assignment) :
    AboutMeaning (stored.check widening table) := by
  have targetMeaning := stored.target.check_aboutMeaning table
  have valueMeaning := stored.value.check_aboutMeaning widening table
  unfold check
  refine .append (.append (.append targetMeaning valueMeaning) ?_)
    (Ty.checkStore_aboutMeaning widening _ _ _)
  cases stored.op.step? with
  | none => exact .nil
  | some step => exact step.check_aboutMeaning widening _ _ _

theorem LoopStart.check_aboutMeaning (start : LoopStart) :
    AboutMeaning (start.check widening table).2 := by
  cases start with
  | nothing => exact .nil
  | declaration declared => exact declared.check_aboutMeaning widening table
  | assignment stored => exact stored.check_aboutMeaning widening table

theorem aboutMeaning_of_part {α : Type} {part? : Option α} {reports : α → List AnalysisError}
    (each : ∀ part, AboutMeaning (reports part)) :
    AboutMeaning ((part?.map reports).getD []) := by
  cases part? with
  | none => exact .nil
  | some part => exact each part

namespace Statement

mutual

theorem check_aboutMeaning (statement : Statement) (table : ScopeTable) :
    AboutMeaning (statement.check widening table).2 := by
  cases statement with
  | declaration declared => exact declared.check_aboutMeaning widening table
  | assignment stored => exact stored.check_aboutMeaning widening table
  | ifThen condition branch span =>
      rw [check_ifThen]
      exact (condition.checkCondition_aboutMeaning widening table).append
        (check_aboutMeaning branch _)
  | ifElse condition branch otherwise span =>
      rw [check_ifElse]
      exact ((condition.checkCondition_aboutMeaning widening table).append
        (check_aboutMeaning branch _)).append (check_aboutMeaning otherwise _)
  | whileLoop condition body span =>
      rw [check_whileLoop]
      exact (condition.checkCondition_aboutMeaning widening table).append
        (check_aboutMeaning body _)
  | forLoop start condition? update? body span =>
      rw [check_forLoop]
      refine .append (.append (.append (start.check_aboutMeaning widening _) ?_) ?_)
        (check_aboutMeaning body _)
      · exact aboutMeaning_of_part fun condition =>
          condition.checkCondition_aboutMeaning widening _
      · exact aboutMeaning_of_part fun update => update.check_aboutMeaning widening _
  | print value span => exact value.check_aboutMeaning widening table
  | block body span =>
      rw [check_block]
      exact checkAll_aboutMeaning body _
  | empty span => exact .nil

theorem checkAll_aboutMeaning (statements : List Statement) (table : ScopeTable) :
    AboutMeaning (checkAll widening table statements).2 := by
  cases statements with
  | nil => exact .nil
  | cons statement statements =>
      rw [checkAll_cons]
      exact (check_aboutMeaning statement table).append (checkAll_aboutMeaning statements _)

end

end Statement

theorem Program.check_aboutMeaning (program : Program) (strict : Bool) :
    AboutMeaning (program.check strict) :=
  AboutMeaning.nil.append (Statement.checkAll_aboutMeaning (!strict) program.statements .outermost)

end StagedAnalysis
