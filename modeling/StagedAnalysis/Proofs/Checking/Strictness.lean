import StagedAnalysis.Proofs.Checking.Names
import StagedAnalysis.Proofs.Checking.Occurrences
import StagedAnalysis.Proofs.Checking.Reports
import StagedAnalysis.Proofs.Checking.RootCauses
import StagedAnalysis.Proofs.Checking.Widening
/-!
A strict check beside a lenient one.

The two see the same scopes. Of an expression they find the same type after no fewer reports in the
strict check, or else the strict check has failed and is ahead by a report. What is built on the
expression can use up that report, as the lenient check may still find a mismatch where the strict
one is silent, and no more than that; so a strict check never has fewer reports. The reports of the
two need not be the same ones.
-/
namespace StagedAnalysis

/-- The outcome of a strict check beside that of a lenient one: the same type, or no type and more
reports. -/
def Restricts (strict lenient : Ty × List AnalysisError) : Prop :=
  strict.1 = lenient.1 ∧ lenient.2.length ≤ strict.2.length ∨
    strict.1 = .error ∧ lenient.2.length < strict.2.length

/-! ### Operators -/

/-- The result of an operator on operands that both checks agree on. -/
theorem BinaryOp.check_restricts (op : BinaryOp) (left right : Ty) (span : Span) :
    Restricts (op.check left right false span) (op.check left right true span) := by
  unfold check
  by_cases failed : (left.isError || right.isError) = true
  · rw [if_pos failed, if_pos failed]
    exact .inl ⟨rfl, Nat.le_refl _⟩
  · rw [if_neg failed, if_neg failed]
    cases strict : op.result? left right false with
    | some ty =>
        have lenient := result?_eq_some_iff.mpr (result?_eq_some_iff.mp strict).widen
        rw [lenient]
        exact .inl ⟨rfl, Nat.le_refl _⟩
    | none =>
        cases op.result? left right true with
        | some ty => exact .inr ⟨rfl, Nat.zero_lt_one⟩
        | none => exact .inl ⟨rfl, Nat.le_refl _⟩

namespace Restricts

variable {strict lenient : Ty × List AnalysisError} {strictParts lenientParts : List AnalysisError}

theorem length_le (restricts : Restricts strict lenient) :
    lenient.2.length ≤ strict.2.length := by
  rcases restricts with ⟨_, le⟩ | ⟨_, lt⟩
  · exact le
  · exact Nat.le_of_lt lt

theorem same_of_ne_error (restricts : Restricts strict lenient) (typed : strict.1 ≠ .error) :
    lenient.1 = strict.1 := by
  rcases restricts with ⟨same, _⟩ | ⟨failed, _⟩
  · exact same.symm
  · exact absurd failed typed

/-- An operator behind its operands, where both checks agree on these. -/
theorem behind (restricts : Restricts strict lenient)
    (fewer : lenientParts.length ≤ strictParts.length) :
    Restricts (strict.1, strictParts ++ strict.2) (lenient.1, lenientParts ++ lenient.2) := by
  unfold Restricts
  rw [List.length_append, List.length_append]
  rcases restricts with ⟨same, le⟩ | ⟨failed, lt⟩
  · exact .inl ⟨same, Nat.add_le_add fewer le⟩
  · exact .inr ⟨failed, Nat.add_lt_add_of_le_of_lt fewer lt⟩

/-- An operator behind operands one of which failed in the strict check alone: what the lenient
check still reports is made up for by what the strict one is ahead. -/
theorem behind_failed {span : Span} (ahead : lenientParts.length < strictParts.length)
    (outcome : lenient.2 = [] ∨ ∃ expected got,
      lenient = (.error, [.typeMismatch expected got span])) :
    Restricts (.error, strictParts ++ []) (lenient.1, lenientParts ++ lenient.2) := by
  unfold Restricts
  rw [List.append_nil, List.length_append]
  rcases outcome with silent | ⟨_, _, rfl⟩
  · rw [silent]
    exact .inr ⟨rfl, ahead⟩
  · exact .inl ⟨rfl, ahead⟩

end Restricts

/-! ### Expressions -/

theorem Expression.check_restricts (table : ScopeTable) (expression : Expression) :
    Restricts (expression.check false table) (expression.check true table) := by
  induction expression with
  | literal value span => exact .inl ⟨rfl, Nat.le_refl _⟩
  | identifier name => exact .inl ⟨rfl, Nat.le_refl _⟩
  | binary op left right span leftHypothesis rightHypothesis =>
      rw [check_binary, check_binary]
      by_cases agree : (left.check false table).1 = (left.check true table).1 ∧
          (right.check false table).1 = (right.check true table).1
      · rw [agree.1, agree.2]
        apply (op.check_restricts _ _ span).behind
        rw [List.length_append, List.length_append]
        exact Nat.add_le_add leftHypothesis.length_le rightHypothesis.length_le
      · -- an operand failed in the strict check alone, which has a report more to show for it
        have ahead : ((left.check false table).1 = .error ∨ (right.check false table).1 = .error) ∧
            (left.check true table).2.length + (right.check true table).2.length <
              (left.check false table).2.length + (right.check false table).2.length := by
          have leftLe := leftHypothesis.length_le
          have rightLe := rightHypothesis.length_le
          rcases leftHypothesis with ⟨leftSame, _⟩ | ⟨leftFailed, leftLt⟩
          · rcases rightHypothesis with ⟨rightSame, _⟩ | ⟨rightFailed, rightLt⟩
            · exact absurd ⟨leftSame, rightSame⟩ agree
            · exact ⟨.inr rightFailed, by omega⟩
          · exact ⟨.inl leftFailed, by omega⟩
        rw [op.check_of_failed false span ahead.1]
        apply Restricts.behind_failed _ (op.check_cases _ _ true span)
        rw [List.length_append, List.length_append]
        exact ahead.2
  | unary op operand span inductionHypothesis =>
      rw [check_unary, check_unary]
      rcases inductionHypothesis with ⟨same, le⟩ | ⟨failed, lt⟩
      · rw [same]
        exact Restricts.behind (.inl ⟨rfl, Nat.le_refl _⟩) le
      · rw [failed, op.check_of_failed span]
        exact Restricts.behind_failed lt (op.check_cases _ span)

/-! ### What is asked of an expression -/

theorem Ty.accepts_widened {target value : Ty} (accepted : target.accepts value false = true) :
    target.accepts value true = true := by
  cases target <;> cases value <;> first | rfl | cases accepted

theorem Ty.checkStore_length_le (target value : Ty) (widening : Bool) (span : Span) :
    (target.checkStore value widening span).length ≤ 1 := by
  rcases target.checkStore_cases value widening span with fits | ⟨_, _, unfit⟩
  · rw [fits]
    exact Nat.zero_le _
  · rw [unfit]
    exact Nat.le_of_eq rfl

/-- What is added to the reports on an expression: where the strict check does not add more than the
lenient one, it has failed and is ahead. -/
theorem Restricts.store {strict lenient : Ty × List AnalysisError}
    (restricts : Restricts strict lenient) (target : Ty) (span : Span) :
    (lenient.2 ++ target.checkStore lenient.1 true span).length ≤
      (strict.2 ++ target.checkStore strict.1 false span).length := by
  rw [List.length_append, List.length_append]
  rcases restricts with ⟨same, le⟩ | ⟨failed, lt⟩
  · rw [same]
    apply Nat.add_le_add le
    unfold Ty.checkStore
    by_cases accepted : target.accepts lenient.1 false = true
    · apply Nat.le_of_eq
      rw [if_pos accepted, if_pos (Ty.accepts_widened accepted)]
    · rw [if_neg accepted]
      split
      · exact Nat.zero_le _
      · exact Nat.le_refl _
  · have once := target.checkStore_length_le lenient.1 true span
    omega

section Checking

variable (table : ScopeTable)

theorem Expression.checkCondition_length_le (condition : Expression) :
    (condition.checkCondition true table).length ≤
      (condition.checkCondition false table).length := by
  rw [checkCondition_eq, checkCondition_eq]
  rcases condition.check_restricts table with ⟨same, le⟩ | ⟨failed, lt⟩
  · rw [same]
    split
    · exact le
    · rw [List.length_append, List.length_append]
      exact Nat.add_le_add_right le _
  · rw [if_pos (Or.inr failed)]
    split
    · exact Nat.le_of_lt lt
    · rw [List.length_append]
      exact lt

theorem Declaration.check_length_le (declared : Declaration) :
    (declared.check true table).2.length ≤ (declared.check false table).2.length := by
  rw [check_errors, check_errors, List.length_append, List.length_append]
  apply Nat.add_le_add_right
  cases declared.value? with
  | none => exact Nat.le_refl _
  | some value => exact (value.check_restricts table).store declared.ty value.span

theorem Assignment.check_length_le (stored : Assignment) :
    (stored.check true table).length ≤ (stored.check false table).length := by
  rcases stored with ⟨target, op, value, span⟩
  cases steps : op.step? with
  | none =>
      have storeLe := (value.check_restricts table).store (target.check table).1 value.span
      rw [AssignOp.eq_set steps, check_plain, check_plain,
        @List.length_append _ (target.check table).2, @List.length_append _ (target.check table).2]
      exact Nat.add_le_add_left storeLe _
  | some step =>
      rw [check_compound steps, check_compound steps]
      exact (Expression.check_restricts table (.binary step (.identifier target) value
        value.span)).store _ value.span

theorem LoopStart.check_length_le (start : LoopStart) :
    (start.check true table).2.length ≤ (start.check false table).2.length := by
  cases start with
  | nothing => exact Nat.le_refl _
  | declaration declared => exact declared.check_length_le table
  | assignment stored => exact stored.check_length_le table

theorem length_part_le {α : Type} {part? : Option α} {strict lenient : α → List AnalysisError}
    (each : ∀ part, (lenient part).length ≤ (strict part).length) :
    ((part?.map lenient).getD []).length ≤ ((part?.map strict).getD []).length := by
  cases part? with
  | none => exact Nat.le_refl _
  | some part => exact each part

/-! ### The same scopes -/

theorem Declaration.check_scopes_eq (declared : Declaration) (first second : Bool) :
    (declared.check first table).1 = (declared.check second table).1 := by
  rw [check_scopes, check_scopes]

theorem LoopStart.check_scopes_eq (start : LoopStart) (first second : Bool) :
    (start.check first table).1 = (start.check second table).1 := by
  cases start with
  | nothing => rfl
  | declaration declared => exact declared.check_scopes_eq table first second
  | assignment stored => rfl

namespace Statement

mutual

/-- The scopes behind a statement are the same in both modes. -/
theorem check_scopes_eq (first second : Bool) (statement : Statement) (table : ScopeTable) :
    (statement.check first table).1 = (statement.check second table).1 := by
  cases statement with
  | declaration declared => exact declared.check_scopes_eq table first second
  | assignment stored => rfl
  | ifThen condition branch span =>
      rw [check_ifThen, check_ifThen, check_scopes_eq first second branch]
  | ifElse condition branch otherwise span =>
      rw [check_ifElse, check_ifElse, check_scopes_eq first second branch,
        check_scopes_eq first second otherwise]
  | whileLoop condition body span =>
      rw [check_whileLoop, check_whileLoop, check_scopes_eq first second body]
  | forLoop start condition? update? body span =>
      rw [check_forLoop, check_forLoop, start.check_scopes_eq table.enter first second,
        check_scopes_eq first second body]
  | print value span => rfl
  | block body span =>
      rw [check_block, check_block, checkAll_scopes_eq first second body]
  | empty span => rfl

theorem checkAll_scopes_eq (first second : Bool) (statements : List Statement)
    (table : ScopeTable) :
    (checkAll first table statements).1 = (checkAll second table statements).1 := by
  cases statements with
  | nil => rfl
  | cons statement statements =>
      rw [checkAll_cons, checkAll_cons, check_scopes_eq first second statement,
        checkAll_scopes_eq first second statements]

end

/-! ### Statements -/

mutual

/-- A strict check of a statement has no fewer reports than a lenient one. -/
theorem check_length_le (statement : Statement) (table : ScopeTable) :
    (statement.check true table).2.length ≤ (statement.check false table).2.length := by
  cases statement with
  | declaration declared => exact declared.check_length_le table
  | assignment stored => exact stored.check_length_le table
  | ifThen condition branch span =>
      rw [check_ifThen, check_ifThen, List.length_append, List.length_append]
      exact Nat.add_le_add (condition.checkCondition_length_le table) (check_length_le branch _)
  | ifElse condition branch otherwise span =>
      rw [check_ifElse, check_ifElse, check_scopes_eq true false branch]
      simp only [List.length_append]
      have conditionLe := condition.checkCondition_length_le table
      have branchLe := check_length_le branch table.enter
      have otherwiseLe := check_length_le otherwise
        (branch.check false table.enter).1.leave.enter
      omega
  | whileLoop condition body span =>
      rw [check_whileLoop, check_whileLoop, List.length_append, List.length_append]
      exact Nat.add_le_add (condition.checkCondition_length_le table) (check_length_le body _)
  | forLoop start condition? update? body span =>
      rw [check_forLoop, check_forLoop, start.check_scopes_eq table.enter true false]
      simp only [List.length_append]
      have startLe := start.check_length_le table.enter
      have conditionLe (header : ScopeTable) := @length_part_le _ condition?
        (·.checkCondition false header) (·.checkCondition true header)
        fun condition => condition.checkCondition_length_le header
      have updateLe (header : ScopeTable) := @length_part_le _ update?
        (·.check false header) (·.check true header) fun update => update.check_length_le header
      have bodyLe := check_length_le body (start.check false table.enter).1.enter
      have conditionHere := conditionLe (start.check false table.enter).1
      have updateHere := updateLe (start.check false table.enter).1
      omega
  | print value span => exact (value.check_restricts table).length_le
  | block body span =>
      rw [check_block, check_block]
      exact checkAll_length_le body _
  | empty span => exact Nat.le_refl _

theorem checkAll_length_le (statements : List Statement) (table : ScopeTable) :
    (checkAll true table statements).2.length ≤ (checkAll false table statements).2.length := by
  cases statements with
  | nil => exact Nat.le_refl _
  | cons statement statements =>
      rw [checkAll_cons, checkAll_cons, check_scopes_eq true false statement,
        List.length_append, List.length_append]
      exact Nat.add_le_add (check_length_le statement table) (checkAll_length_le statements _)

end

end Statement

/-! ### Types of expressions -/

/-- One and the same expression in a strict and in a lenient check: a type that the strict one finds
is found by the lenient one. -/
def KeepsType (strict lenient : Expression × Ty) : Prop :=
  lenient.1 = strict.1 ∧ (strict.2 ≠ .error → lenient.2 = strict.2)

abbrev KeepTypes (strict lenient : List (Expression × Ty)) : Prop :=
  List.Forall₂ KeepsType strict lenient

theorem Expression.typings_keep (expression : Expression) :
    KeepTypes (expression.typings false table) (expression.typings true table) := by
  unfold typings KeepTypes
  rw [List.forall₂_map_left_iff, List.forall₂_map_right_iff, List.forall₂_same]
  intro node _
  exact ⟨rfl, (node.check_restricts table).same_of_ne_error⟩

theorem typings_part_keep {α : Type} {part? : Option α}
    {strict lenient : α → List (Expression × Ty)}
    (each : ∀ part, KeepTypes (strict part) (lenient part)) :
    KeepTypes ((part?.map strict).getD []) ((part?.map lenient).getD []) := by
  cases part? with
  | none => exact .nil
  | some part => exact each part

theorem LoopStart.typings_keep (start : LoopStart) :
    KeepTypes (start.typings false table) (start.typings true table) := by
  cases start with
  | nothing => exact .nil
  | declaration declared => exact typings_part_keep fun value => value.typings_keep table
  | assignment stored => exact stored.value.typings_keep table

namespace Statement

mutual

theorem typings_keep (statement : Statement) (table : ScopeTable) :
    KeepTypes (statement.typings false table) (statement.typings true table) := by
  cases statement with
  | declaration declared => exact typings_part_keep fun value => value.typings_keep table
  | assignment stored => exact stored.value.typings_keep table
  | ifThen condition branch span =>
      rw [typings, typings]
      exact List.rel_append (condition.typings_keep table) (typings_keep branch _)
  | ifElse condition branch otherwise span =>
      rw [typings, typings, check_scopes_eq true false branch]
      exact List.rel_append
        (List.rel_append (condition.typings_keep table) (typings_keep branch _))
        (typings_keep otherwise _)
  | whileLoop condition body span =>
      rw [typings, typings]
      exact List.rel_append (condition.typings_keep table) (typings_keep body _)
  | forLoop start condition? update? body span =>
      rw [typings, typings, start.check_scopes_eq table.enter true false]
      have conditionKeep (header : ScopeTable) := @typings_part_keep _ condition?
        (·.typings false header) (·.typings true header) fun condition =>
          condition.typings_keep header
      have updateKeep (header : ScopeTable) := @typings_part_keep _ update?
        (·.typings false header) (·.typings true header) fun update =>
          update.value.typings_keep header
      exact List.rel_append
        (List.rel_append (List.rel_append (start.typings_keep table.enter) (conditionKeep _))
          (updateKeep _))
        (typings_keep body _)
  | print value span => exact value.typings_keep table
  | block body span => exact typingsAll_keep body _
  | empty span => exact .nil

theorem typingsAll_keep (statements : List Statement) (table : ScopeTable) :
    KeepTypes (typingsAll false table statements) (typingsAll true table statements) := by
  cases statements with
  | nil => exact .nil
  | cons statement statements =>
      rw [typingsAll, typingsAll, check_scopes_eq true false statement]
      exact List.rel_append (typings_keep statement table) (typingsAll_keep statements _)

end

end Statement

end Checking

/-! ### Programs -/

namespace Program

theorem check_length_le (program : Program) :
    (program.check false).length ≤ (program.check true).length := by
  rw [check_eq, check_eq]
  exact Statement.checkAll_length_le program.statements .outermost

theorem typings_keep (program : Program) :
    KeepTypes (program.typings true) (program.typings false) :=
  Statement.typingsAll_keep program.statements .outermost

/-- Where the lenient check is clean, the strict one finds nothing but mismatches. -/
theorem check_mismatch_of_lenient {program : Program} (clean : program.check false = [])
    {error : AnalysisError} (reported : error ∈ program.check true) :
    ∃ expected got span, error = .typeMismatch expected got span := by
  have noNames : namesOnly (program.check true) = [] := by
    rw [check_names program true, ← check_names program false, clean]
    rfl
  have notNames := List.filter_eq_nil_iff.mp noNames error reported
  have meaning := program.check_aboutMeaning true error reported
  cases error with
  | typeMismatch expected got span => exact ⟨expected, got, span, rfl⟩
  | duplicateDeclaration name previous span => exact absurd rfl notNames
  | undefinedVariable name span => exact absurd rfl notNames
  | _ => cases meaning

/-- Strictness only restricts. Of the expressions of a program, every one at its place, those that
have a type in a strict check have it in a lenient check; a strict check has no fewer reports; a
program that is clean in a strict check is clean in a lenient one; and if it is clean in a lenient
check, all reports of a strict one are mismatches. -/
theorem strictness_restricts (program : Program) :
    (∀ strict, (program.typings strict).map (·.1) = program.expressions) ∧
      List.Forall₂ (fun strict lenient => strict.2 ≠ .error → lenient.2 = strict.2)
        (program.typings true) (program.typings false) ∧
      (program.check false).length ≤ (program.check true).length ∧
      (program.check true = [] → program.check false = []) ∧
      (program.check false = [] → ∀ error ∈ program.check true,
        ∃ expected got span, error = .typeMismatch expected got span) := by
  refine ⟨?_, ?_, program.check_length_le, ?_, ?_⟩
  · intro strict
    exact Statement.map_typingsAll (!strict) program.statements .outermost
  · apply program.typings_keep.imp
    intro strict lenient keeps
    exact keeps.2
  · intro clean
    have fewer := program.check_length_le
    rw [clean, List.length_nil, Nat.le_zero_eq] at fewer
    exact List.eq_nil_of_length_eq_zero fewer
  · intro clean error reported
    exact check_mismatch_of_lenient clean reported

/-- A value that fits, and one that fits where an int may be widened. -/
theorem strictness_restricts_widening : ∃ plain widened : Program,
    plain.check true = [] ∧ plain.check false = [] ∧
      widened.check false = [] ∧ (widened.check true).length = 1 ∧
      ∀ error ∈ widened.check true,
        ∃ expected got span, error = .typeMismatch expected got span := by
  have fits : Program.check ⟨[.declaration ⟨.int, ⟨"x", .origin⟩,
    some (.literal (.int 1) .origin), .origin⟩]⟩ true = [] := rfl
  have widens : Program.check ⟨[.declaration ⟨.float, ⟨"x", .origin⟩,
    some (.literal (.int 1) .origin), .origin⟩]⟩ false = [] := rfl
  exact ⟨_, _, fits, (strictness_restricts _).2.2.2.1 fits, widens, rfl,
    (strictness_restricts _).2.2.2.2 widens⟩

end Program

end StagedAnalysis
