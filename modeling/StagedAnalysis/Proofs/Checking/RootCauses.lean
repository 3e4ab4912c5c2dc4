import Mathlib.Data.List.Forall2
import StagedAnalysis.Proofs.Checking.Analyzers
import StagedAnalysis.Proofs.Checking.Statements
import StagedAnalysis.Proofs.Trees
/-!
Root causes.

A mistake is where a name is used that no open scope declares, or where an operator stands between
operands that have types, but not types that it takes. What is built on a mistake has no type and
is no mistake of its own. Checking an expression reports its mistakes, each of them once and in
post-order, and finds the type of failed expressions exactly where there are some. What a statement
asks of its expressions adds a report only where there were none.
-/
namespace StagedAnalysis

namespace Typing

variable {widening : Bool} {context : Context}

/-! ### Types are unique -/

theorem Resolves.unique {name : String} {first second : Ty} (one : Resolves context name first)
    (other : Resolves context name second) : first = second := by
  induction one with
  | here found =>
      cases other with
      | here again => exact Option.some.inj (found.symm.trans again)
      | further fresh _ => cases fresh.symm.trans found
  | further fresh _ inductionHypothesis =>
      cases other with
      | here found => cases fresh.symm.trans found
      | further _ resolved => exact inductionHypothesis resolved

theorem Combines.unique {op : BinaryOp} {left right first second : Ty}
    (one : Combines widening op left right first) (other : Combines widening op left right second) :
    first = second :=
  Option.some.inj ((BinaryOp.result?_eq_some_iff.mpr one).symm.trans
    (BinaryOp.result?_eq_some_iff.mpr other))

theorem Applies.unique {op : UnaryOp} {operand first second : Ty}
    (one : Applies op operand first) (other : Applies op operand second) : first = second := by
  cases one <;> cases other <;> rfl

theorem HasType.unique {expression : Expression} {first second : Ty}
    (one : HasType widening context expression first)
    (other : HasType widening context expression second) : first = second := by
  induction one generalizing second with
  | literal => cases other; rfl
  | identifier resolved =>
      cases other with
      | identifier again => exact resolved.unique again
  | binary _ _ combined leftHypothesis rightHypothesis =>
      cases other with
      | binary leftTyped rightTyped again =>
          cases leftHypothesis leftTyped
          cases rightHypothesis rightTyped
          exact combined.unique again
  | unary _ applied inductionHypothesis =>
      cases other with
      | unary typed again =>
          cases inductionHypothesis typed
          exact applied.unique again

/-! ### Root causes and their reports -/

/-- A name that resolves to nothing, or an operator without a root cause in its operands that does
not take operands of their types. -/
def RootCause (widening : Bool) (context : Context) : Expression → Prop
  | .literal _ _ => False
  | .identifier name => ∀ ty, ¬Resolves context name.name ty
  | .binary op left right _ =>
    (∀ node, node ∈ left.postorder → ¬RootCause widening context node) ∧
      (∀ node, node ∈ right.postorder → ¬RootCause widening context node) ∧
      ∃ leftTy rightTy, HasType widening context left leftTy ∧
        HasType widening context right rightTy ∧ ∀ ty, ¬Combines widening op leftTy rightTy ty
  | .unary op operand _ =>
    (∀ node, node ∈ operand.postorder → ¬RootCause widening context node) ∧
      ∃ operandTy, HasType widening context operand operandTy ∧ ∀ ty, ¬Applies op operandTy ty
termination_by expression => sizeOf expression
decreasing_by
  all_goals
    have smaller := Expression.sizeOf_le_of_mem_postorder ‹_›
    simp only [Expression.binary.sizeOf_spec, Expression.unary.sizeOf_spec]
    omega

open Classical in
noncomputable def rootCauses (widening : Bool) (context : Context) (expression : Expression) :
    List Expression :=
  expression.postorder.filter (RootCause widening context ·)

inductive ReportedAs (widening : Bool) (context : Context) : Expression → AnalysisError → Prop
  | undeclared {name : Identifier} :
      ReportedAs widening context (.identifier name) (.undefinedVariable name.name name.span)
  | binary {op : BinaryOp} {left right : Expression} {span : Span} {leftTy rightTy : Ty}
      (leftTyped : HasType widening context left leftTy)
      (rightTyped : HasType widening context right rightTy) :
      ReportedAs widening context (.binary op left right span)
        (.typeMismatch s!"{op.wanted} operands for '{op.symbol}'"
          s!"{leftTy.text} and {rightTy.text}" span)
  | unary {op : UnaryOp} {operand : Expression} {span : Span} {operandTy : Ty}
      (operandTyped : HasType widening context operand operandTy) :
      ReportedAs widening context (.unary op operand span)
        (.typeMismatch s!"{op.wanted} operand for '{op.symbol}'" operandTy.text span)

/-- An expression has a type if and only if there is no root cause in it. -/
theorem hasType_iff_free (expression : Expression) :
    (∃ ty, HasType widening context expression ty) ↔
      ∀ node ∈ expression.postorder, ¬RootCause widening context node := by
  induction expression with
  | literal value span =>
      simp only [Expression.postorder, List.forall_mem_singleton, RootCause, not_false_eq_true,
        iff_true]
      exact ⟨_, .literal⟩
  | identifier name =>
      simp only [Expression.postorder, List.forall_mem_singleton, RootCause, not_forall, not_not]
      constructor
      · intro typed
        rcases typed with ⟨ty, typed⟩
        cases typed with
        | identifier resolved => exact ⟨ty, resolved⟩
      · intro resolves
        rcases resolves with ⟨ty, resolved⟩
        exact ⟨ty, .identifier resolved⟩
  | binary op left right span leftHypothesis rightHypothesis =>
      simp only [Expression.postorder, List.forall_mem_append, List.forall_mem_singleton,
        ← leftHypothesis, ← rightHypothesis, RootCause]
      constructor
      · intro typed
        rcases typed with ⟨ty, typed⟩
        cases typed with
        | binary leftTyped rightTyped combined =>
            refine ⟨⟨⟨_, leftTyped⟩, _, rightTyped⟩, fun cause => ?_⟩
            rcases cause with ⟨_, _, leftTy, rightTy, leftAgain, rightAgain, rejected⟩
            cases leftTyped.unique leftAgain
            cases rightTyped.unique rightAgain
            exact rejected _ combined
      · intro free
        rcases free with ⟨⟨⟨leftTy, leftTyped⟩, rightTy, rightTyped⟩, noCause⟩
        by_cases taken : ∃ ty, Combines widening op leftTy rightTy ty
        · rcases taken with ⟨ty, combined⟩
          exact ⟨ty, .binary leftTyped rightTyped combined⟩
        · exact absurd ⟨⟨_, leftTyped⟩, ⟨_, rightTyped⟩, _, _, leftTyped, rightTyped,
            not_exists.mp taken⟩ noCause
  | unary op operand span inductionHypothesis =>
      simp only [Expression.postorder, List.forall_mem_append, List.forall_mem_singleton,
        ← inductionHypothesis, RootCause]
      constructor
      · intro typed
        rcases typed with ⟨ty, typed⟩
        cases typed with
        | unary operandTyped applied =>
            refine ⟨⟨_, operandTyped⟩, fun cause => ?_⟩
            rcases cause with ⟨_, operandTy, again, rejected⟩
            cases operandTyped.unique again
            exact rejected _ applied
      · intro free
        rcases free with ⟨⟨operandTy, operandTyped⟩, noCause⟩
        by_cases taken : ∃ ty, Applies op operandTy ty
        · rcases taken with ⟨ty, applied⟩
          exact ⟨ty, .unary operandTyped applied⟩
        · exact absurd ⟨⟨_, operandTyped⟩, _, operandTyped, not_exists.mp taken⟩ noCause

theorem rootCause_binary_iff {op : BinaryOp} {left right : Expression} {span : Span} :
    RootCause widening context (.binary op left right span) ↔
      ∃ leftTy rightTy, HasType widening context left leftTy ∧
        HasType widening context right rightTy ∧ ∀ ty, ¬Combines widening op leftTy rightTy ty := by
  rw [RootCause, ← hasType_iff_free, ← hasType_iff_free]
  constructor
  · intro cause
    exact cause.2.2
  · intro rejected
    rcases rejected with ⟨leftTy, rightTy, leftTyped, rightTyped, rejected⟩
    exact ⟨⟨_, leftTyped⟩, ⟨_, rightTyped⟩, _, _, leftTyped, rightTyped, rejected⟩

theorem rootCause_unary_iff {op : UnaryOp} {operand : Expression} {span : Span} :
    RootCause widening context (.unary op operand span) ↔
      ∃ operandTy, HasType widening context operand operandTy ∧ ∀ ty, ¬Applies op operandTy ty := by
  rw [RootCause, ← hasType_iff_free]
  constructor
  · intro cause
    exact cause.2
  · intro rejected
    rcases rejected with ⟨operandTy, operandTyped, rejected⟩
    exact ⟨⟨_, operandTyped⟩, _, operandTyped, rejected⟩

end Typing

open Typing

/-! ### Operators on operands that fail -/

/-- Where an operator reports, its result is the type of failed expressions. -/
theorem BinaryOp.check_failed {op : BinaryOp} {left right : Ty} {widening : Bool} {span : Span}
    (reported : (op.check left right widening span).2 ≠ []) :
    (op.check left right widening span).1 = .error := by
  rcases op.check_cases left right widening span with clean | ⟨_, _, failed⟩
  · exact absurd clean reported
  · exact congrArg Prod.fst failed

theorem UnaryOp.check_failed {op : UnaryOp} {operand : Ty} {span : Span}
    (reported : (op.check operand span).2 ≠ []) : (op.check operand span).1 = .error := by
  rcases op.check_cases operand span with clean | ⟨_, _, failed⟩
  · exact absurd clean reported
  · exact congrArg Prod.fst failed

theorem BinaryOp.check_of_failed (op : BinaryOp) {left right : Ty} (widening : Bool) (span : Span)
    (failed : left = .error ∨ right = .error) :
    op.check left right widening span = (.error, []) := by
  unfold check
  apply if_pos
  rcases failed with rfl | rfl
  · rfl
  · exact Bool.or_true _

theorem UnaryOp.check_of_failed (op : UnaryOp) (span : Span) :
    op.check .error span = (.error, []) :=
  rfl

theorem BinaryOp.check_of_rejected {op : BinaryOp} {left right : Ty} {widening : Bool} (span : Span)
    (leftSound : left ≠ .error) (rightSound : right ≠ .error)
    (rejected : ∀ ty, ¬Combines widening op left right ty) :
    op.check left right widening span =
      (.error, [.typeMismatch s!"{op.wanted} operands for '{op.symbol}'"
        s!"{left.text} and {right.text}" span]) := by
  have noResult : op.result? left right widening = none := by
    apply Option.eq_none_iff_forall_ne_some.mpr
    intro ty found
    exact rejected ty (result?_eq_some_iff.mp found)
  unfold check
  rw [noResult]
  simp [Ty.isError, leftSound, rightSound]

theorem UnaryOp.check_of_rejected {op : UnaryOp} {operand : Ty} (span : Span)
    (sound : operand ≠ .error) (rejected : ∀ ty, ¬Applies op operand ty) :
    op.check operand span =
      (.error, [.typeMismatch s!"{op.wanted} operand for '{op.symbol}'" operand.text span]) := by
  have refuses : op.takes operand = false := by
    by_contra takes
    rw [Bool.not_eq_false] at takes
    apply rejected operand
    apply (@check_iff op operand operand span sound).mp
    unfold check
    rw [takes, Bool.or_true]
    rfl
  unfold check
  simp [Ty.isError, sound, refuses]

/-! ### Reports of expressions -/

section Reports

variable {widening : Bool} {table : ScopeTable} {stack : ScopeStack}

/-- Behind a report the type is that of failed expressions. -/
theorem Expression.check_failed {expression : Expression}
    (reported : (expression.check widening table).2 ≠ []) :
    (expression.check widening table).1 = .error := by
  induction expression with
  | literal value span => exact absurd rfl reported
  | identifier name =>
      change (name.check table).1 = _
      change (name.check table).2 ≠ _ at reported
      unfold Identifier.check at reported ⊢
      cases found : table.lookup? name.name with
      | none => rfl
      | some declared => rw [found] at reported; exact absurd rfl reported
  | binary op left right span leftHypothesis rightHypothesis =>
      rw [check_binary] at reported ⊢
      by_cases clean : (left.check widening table).2 = [] ∧ (right.check widening table).2 = []
      · rw [clean.1, clean.2] at reported
        exact BinaryOp.check_failed reported
      · have failed : (left.check widening table).1 = .error ∨
            (right.check widening table).1 = .error := by
          rcases not_and_or.mp clean with inLeft | inRight
          · exact .inl (leftHypothesis inLeft)
          · exact .inr (rightHypothesis inRight)
        rw [op.check_of_failed widening span failed]
  | unary op operand span inductionHypothesis =>
      rw [check_unary] at reported ⊢
      by_cases clean : (operand.check widening table).2 = []
      · rw [clean] at reported
        exact UnaryOp.check_failed reported
      · rw [inductionHypothesis clean, op.check_of_failed span]

/-- An expression is checked without a report if and only if it has a type. -/
theorem Expression.check_clean_iff (views : table.Views stack) (sound : Sound stack.context)
    {expression : Expression} :
    (expression.check widening table).2 = [] ↔
      ∃ ty, HasType widening stack.context expression ty := by
  constructor
  · intro clean
    exact ⟨_, hasType_of_clean views sound clean⟩
  · intro typed
    rcases typed with ⟨ty, typed⟩
    exact congrArg Prod.snd ((check_iff views sound).mpr typed)

theorem Expression.check_untyped (views : table.Views stack) (sound : Sound stack.context)
    {expression : Expression} (untyped : ¬∃ ty, HasType widening stack.context expression ty) :
    (expression.check widening table).1 = .error :=
  check_failed (mt (check_clean_iff views sound).mp untyped)

theorem Expression.check_eq_error_iff (views : table.Views stack) (sound : Sound stack.context)
    {expression : Expression} :
    (expression.check widening table).1 = .error ↔ (expression.check widening table).2 ≠ [] := by
  constructor
  · intro failed clean
    exact (hasType_of_clean views sound clean).ne_error sound failed
  · exact check_failed

open Classical in
/-- The last expression of a row in post-order: it is reported if and only if it is a root cause. -/
theorem reportedAs_filter {context : Context} {node : Expression} {errors : List AnalysisError}
    (caused : RootCause widening context node →
      ∃ error, errors = [error] ∧ ReportedAs widening context node error)
    (innocent : ¬RootCause widening context node → errors = []) :
    List.Forall₂ (ReportedAs widening context)
      ([node].filter (RootCause widening context ·)) errors := by
  by_cases cause : RootCause widening context node
  · rcases caused cause with ⟨error, rfl, reported⟩
    rw [List.filter_singleton, decide_eq_true cause]
    exact .cons reported .nil
  · rw [innocent cause, List.filter_singleton, decide_eq_false cause]
    exact .nil

theorem Identifier.check_reports (views : table.Views stack) (name : Identifier) :
    List.Forall₂ (ReportedAs widening stack.context)
      (rootCauses widening stack.context (.identifier name)) (name.check table).2 := by
  apply reportedAs_filter
  · intro cause
    have missing : table.lookup? name.name = none := by
      apply Option.eq_none_iff_forall_ne_some.mpr
      intro declared found
      rw [views.lookup?] at found
      rw [RootCause] at cause
      exact cause _ (ScopeStack.resolves_iff.mpr ⟨declared, found, rfl⟩)
    unfold check
    rw [missing]
    exact ⟨_, rfl, .undeclared⟩
  · intro noCause
    rw [RootCause, not_forall_not] at noCause
    rcases noCause with ⟨ty, resolved⟩
    rw [(check_iff views).mpr resolved]

/-- The reports on an expression are those on its root causes, one for each and in their order. -/
theorem Expression.check_reports (views : table.Views stack) (sound : Sound stack.context)
    (expression : Expression) :
    List.Forall₂ (ReportedAs widening stack.context)
      (rootCauses widening stack.context expression) (expression.check widening table).2 := by
  induction expression with
  | literal value span =>
      apply reportedAs_filter
      · intro cause
        rw [RootCause] at cause
        exact cause.elim
      · intro _
        rfl
  | identifier name => exact name.check_reports views
  | binary op left right span leftHypothesis rightHypothesis =>
      rw [check_binary]
      unfold rootCauses
      rw [postorder, List.filter_append, List.filter_append]
      apply List.rel_append (List.rel_append leftHypothesis rightHypothesis)
      apply reportedAs_filter
      · intro cause
        rcases rootCause_binary_iff.mp cause with
          ⟨leftTy, rightTy, leftTyped, rightTyped, rejected⟩
        rw [(check_iff views sound).mpr leftTyped, (check_iff views sound).mpr rightTyped,
          BinaryOp.check_of_rejected span (leftTyped.ne_error sound) (rightTyped.ne_error sound)
            rejected]
        exact ⟨_, rfl, .binary leftTyped rightTyped⟩
      · intro noCause
        by_cases leftTypes : ∃ ty, HasType widening stack.context left ty
        · by_cases rightTypes : ∃ ty, HasType widening stack.context right ty
          · -- both operands have types, so these are types that the operator takes
            rcases leftTypes with ⟨leftTy, leftTyped⟩
            rcases rightTypes with ⟨rightTy, rightTyped⟩
            have taken : ∃ ty, Combines widening op leftTy rightTy ty := by
              by_contra rejected
              exact noCause (rootCause_binary_iff.mpr
                ⟨_, _, leftTyped, rightTyped, not_exists.mp rejected⟩)
            rcases taken with ⟨ty, combined⟩
            rw [(check_iff views sound).mpr leftTyped, (check_iff views sound).mpr rightTyped,
              (BinaryOp.check_iff (leftTyped.ne_error sound) (rightTyped.ne_error sound)).mpr
                combined]
          · rw [op.check_of_failed widening span (.inr (check_untyped views sound rightTypes))]
        · rw [op.check_of_failed widening span (.inl (check_untyped views sound leftTypes))]
  | unary op operand span inductionHypothesis =>
      rw [check_unary]
      unfold rootCauses
      rw [postorder, List.filter_append]
      apply List.rel_append inductionHypothesis
      apply reportedAs_filter
      · intro cause
        rcases rootCause_unary_iff.mp cause with ⟨operandTy, operandTyped, rejected⟩
        rw [(check_iff views sound).mpr operandTyped,
          UnaryOp.check_of_rejected span (operandTyped.ne_error sound) rejected]
        exact ⟨_, rfl, .unary operandTyped⟩
      · intro noCause
        by_cases types : ∃ ty, HasType widening stack.context operand ty
        · rcases types with ⟨operandTy, operandTyped⟩
          have taken : ∃ ty, Applies op operandTy ty := by
            by_contra rejected
            exact noCause (rootCause_unary_iff.mpr ⟨_, operandTyped, not_exists.mp rejected⟩)
          rcases taken with ⟨ty, applied⟩
          rw [(check_iff views sound).mpr operandTyped,
            (UnaryOp.check_iff (operandTyped.ne_error sound)).mpr applied]
        · rw [check_untyped views sound types, op.check_of_failed span]

end Reports

/-! ### Reports of a statement's own -/

/-- What is added to the reports on some parts: at most one mismatch, and only where there were
no reports. -/
def AddsMismatch (parts own : List AnalysisError) : Prop :=
  own = [] ∨ parts = [] ∧ ∃ expected got span, own = [.typeMismatch expected got span]

namespace AddsMismatch

variable {parts first second : List AnalysisError}

/-- A report that was added is one of the parts for what is added behind it. -/
theorem append (adds : AddsMismatch parts first) (addsMore : AddsMismatch (parts ++ first) second) :
    AddsMismatch parts (first ++ second) := by
  rcases adds with rfl | ⟨clean, added⟩
  · rw [List.append_nil] at addsMore
    exact addsMore
  · rcases addsMore with rfl | ⟨bothClean, _⟩
    · rw [List.append_nil]
      exact .inr ⟨clean, added⟩
    · rcases added with ⟨expected, got, span, rfl⟩
      exact absurd bothClean (List.append_ne_nil_of_right_ne_nil _ (List.cons_ne_nil _ _))

end AddsMismatch

section Own

variable {widening : Bool} {table : ScopeTable}

theorem Ty.checkStore_adds {parts : List AnalysisError} {target value : Ty} {span : Span}
    (excused : parts ≠ [] → target = .error ∨ value = .error) :
    AddsMismatch parts (target.checkStore value widening span) := by
  by_cases clean : parts = []
  · rcases target.checkStore_cases value widening span with fits | ⟨_, _, unfit⟩
    · exact .inl fits
    · exact .inr ⟨clean, _, _, _, unfit⟩
  · have accepted : target.accepts value widening = true := by
      unfold accepts
      apply if_pos
      rcases excused clean with rfl | rfl
      · rfl
      · exact Bool.or_true _
    exact .inl (if_pos accepted)

theorem BinaryOp.check_adds {parts : List AnalysisError} (op : BinaryOp) {left right : Ty}
    (span : Span) (excused : parts ≠ [] → left = .error ∨ right = .error) :
    AddsMismatch parts (op.check left right widening span).2 := by
  by_cases clean : parts = []
  · rcases op.check_cases left right widening span with taken | ⟨_, _, rejected⟩
    · exact .inl taken
    · exact .inr ⟨clean, _, _, _, congrArg Prod.snd rejected⟩
  · rw [op.check_of_failed widening span (excused clean)]
    exact .inl rfl

theorem Expression.checkCondition_adds (condition : Expression) :
    ∃ own, condition.checkCondition widening table = (condition.check widening table).2 ++ own ∧
      AddsMismatch (condition.check widening table).2 own := by
  rw [checkCondition_eq]
  split
  · exact ⟨[], (List.append_nil _).symm, .inl rfl⟩
  · rename_i unfit
    have clean : (condition.check widening table).2 = [] := by
      by_contra reported
      exact unfit (.inr (check_failed reported))
    exact ⟨_, rfl, .inr ⟨clean, _, _, _, rfl⟩⟩

theorem Declaration.check_adds (declared : Declaration) :
    ∃ own clash,
      (declared.check widening table).2 =
        (declared.value?.map fun value => (value.check widening table).2).getD [] ++ own ++ clash ∧
      AddsMismatch ((declared.value?.map fun value => (value.check widening table).2).getD []) own ∧
      ∀ error ∈ clash, ∃ previous,
        error = .duplicateDeclaration declared.name.name previous declared.name.span := by
  have stored : ∃ own,
      (declared.value?.map fun value => (value.check widening table).2 ++
        declared.ty.checkStore (value.check widening table).1 widening value.span).getD [] =
          (declared.value?.map fun value => (value.check widening table).2).getD [] ++ own ∧
        AddsMismatch ((declared.value?.map fun value => (value.check widening table).2).getD [])
          own := by
    cases declared.value? with
    | none => exact ⟨[], rfl, .inl rfl⟩
    | some value =>
        exact ⟨_, rfl, Ty.checkStore_adds fun reported => .inr (Expression.check_failed reported)⟩
  rcases stored with ⟨own, same, adds⟩
  rw [check_errors, same]
  unfold ScopeTable.define
  cases table.lookupLocal? declared.name.name with
  | none => exact ⟨own, [], rfl, adds, List.forall_mem_nil _⟩
  | some existing =>
      exact ⟨own, _, rfl, adds, List.forall_mem_singleton.mpr ⟨existing.span, rfl⟩⟩

theorem Assignment.check_adds (stored : Assignment) :
    ∃ own,
      stored.check widening table =
        (stored.target.check table).2 ++ (stored.value.check widening table).2 ++ own ∧
      AddsMismatch ((stored.target.check table).2 ++ (stored.value.check widening table).2)
        own := by
  rcases stored with ⟨target, op, value, span⟩
  have excused : (target.check table).2 ++ (value.check widening table).2 ≠ [] →
      (target.check table).1 = .error ∨ (value.check widening table).1 = .error := by
    intro reported
    by_cases targetClean : (target.check table).2 = []
    · rw [targetClean, List.nil_append] at reported
      exact .inr (Expression.check_failed reported)
    · exact .inl (@Expression.check_failed widening table (.identifier target) targetClean)
  cases steps : op.step? with
  | none =>
      rw [AssignOp.eq_set steps, check_plain, ← List.append_assoc]
      exact ⟨_, rfl, Ty.checkStore_adds excused⟩
  | some step =>
      -- the operator comes first, and the store sees what it reports
      rw [check_compound steps, Expression.check_binary, List.append_assoc]
      refine ⟨_, rfl, ?_⟩
      apply AddsMismatch.append (step.check_adds value.span excused)
      apply Ty.checkStore_adds
      intro reported
      have failed := @Expression.check_failed widening table
        (.binary step (.identifier target) value value.span)
      rw [Expression.check_binary] at failed
      exact .inr (failed reported)

end Own

namespace Analyzer

/-- Mistakes are reported once, and nothing fails in silence. Whatever was done with an analyzer, as
long as no symbol has the type of failed expressions: an expression is reported on once for each of
its root causes, in post-order, and has the type of failed expressions if and only if there was a
report. A declaration, an assignment and a condition add a mismatch at most, and only where there
was no report on the expressions and the name that they put together. -/
theorem reports_root_causes {operations : List Operation}
    (unpoisoned : (perform operations).scopes.Unpoisoned) (widening : Bool) :
    let table := (perform operations).scopes
    ∃ stack, table.Views stack ∧
      (∀ expression : Expression,
        List.Forall₂ (ReportedAs widening stack.context)
            (rootCauses widening stack.context expression) (expression.check widening table).2 ∧
          ((expression.check widening table).1 = .error ↔
            (expression.check widening table).2 ≠ [])) ∧
      (∀ declared : Declaration, ∃ own clash,
        (declared.check widening table).2 =
            (declared.value?.map fun value => (value.check widening table).2).getD [] ++ own ++
              clash ∧
          AddsMismatch ((declared.value?.map fun value => (value.check widening table).2).getD [])
            own ∧
          ∀ error ∈ clash, ∃ previous,
            error = .duplicateDeclaration declared.name.name previous declared.name.span) ∧
      (∀ stored : Assignment, ∃ own,
        stored.check widening table =
            (stored.target.check table).2 ++ (stored.value.check widening table).2 ++ own ∧
          AddsMismatch ((stored.target.check table).2 ++ (stored.value.check widening table).2)
            own) ∧
      ∀ condition : Expression, ∃ own,
        condition.checkCondition widening table = (condition.check widening table).2 ++ own ∧
          AddsMismatch (condition.check widening table).2 own := by
  rcases perform_views operations with ⟨names, outer, views⟩
  have sound := views.sound unpoisoned
  refine ⟨names :: outer, views, ?_, ?_, ?_, ?_⟩
  · intro expression
    exact ⟨expression.check_reports views sound, Expression.check_eq_error_iff views sound⟩
  · intro declared
    exact declared.check_adds
  · intro stored
    exact stored.check_adds
  · intro condition
    exact condition.checkCondition_adds

/-- A product of two failed operands is no mistake of its own. -/
theorem reports_root_causes_of_product : ∃ operations expression stack,
    (perform operations).scopes.Unpoisoned ∧ (perform operations).scopes.Views stack ∧
      List.Forall₂ (ReportedAs true stack.context) (rootCauses true stack.context expression)
        [.undefinedVariable "missing" .origin,
          .typeMismatch "numeric operands for '-'" "string and int" .origin] := by
  have unpoisoned : (perform [.scopes (.define ⟨"count", .int, .origin⟩), .scopes .enter,
      .scopes (.define ⟨"title", .string, .origin⟩)]).scopes.Unpoisoned := by decide
  rcases reports_root_causes unpoisoned true with ⟨stack, views, reports, _⟩
  exact ⟨_, .binary .mul
    (.binary .add (.identifier ⟨"count", .origin⟩) (.identifier ⟨"missing", .origin⟩) .origin)
    (.binary .sub (.identifier ⟨"title", .origin⟩) (.identifier ⟨"count", .origin⟩) .origin)
    .origin, stack, unpoisoned, views, (reports _).1⟩

end Analyzer

end StagedAnalysis
