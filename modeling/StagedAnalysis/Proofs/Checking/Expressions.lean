import StagedAnalysis.Checking.Expression
import StagedAnalysis.Proofs.Scopes
import StagedAnalysis.Proofs.Typing
/-!
Checking decides which types expressions have.

Where no name has the type of failed expressions, an expression is checked without a report if and
only if it has a type by the rules, which is then the type that the check finds.
-/
namespace StagedAnalysis

open Typing

/-! ### Operators -/

theorem Ty.numericJoin?_eq_some_iff {left right ty : Ty} {widening : Bool} :
    left.numericJoin? right widening = some ty ↔ Meets widening left right ty := by
  constructor
  · intro joined
    cases left <;> cases right <;> cases widening <;> cases joined <;> constructor <;> rfl
  · intro meets
    cases meets with
    | ints => rfl
    | floats => rfl
    | intFloat widened => rw [widened]; rfl
    | floatInt widened => rw [widened]; rfl

theorem Typing.Meets.ne_string {left right ty : Ty} {widening : Bool}
    (meets : Meets widening left right ty) : left ≠ .string := by
  cases meets <;> simp

theorem BinaryOp.result?_eq_some_iff {op : BinaryOp} {left right ty : Ty} {widening : Bool} :
    op.result? left right widening = some ty ↔ Combines widening op left right ty := by
  constructor
  · intro found
    cases op with
    | add =>
        simp only [result?] at found
        split at found
        · rename_i strings
          obtain ⟨rfl, rfl⟩ := strings
          cases found
          exact .concatenation
        · exact .arithmetic (by simp) (Ty.numericJoin?_eq_some_iff.mp found)
    | sub | mul | div =>
        exact .arithmetic (by simp) (Ty.numericJoin?_eq_some_iff.mp found)
    | mod =>
        simp only [result?, Option.ite_none_right_eq_some, Option.some.injEq] at found
        obtain ⟨⟨rfl, rfl⟩, rfl⟩ := found
        exact .remainder
    | lt | le | gt | ge =>
        obtain ⟨joined, meets, rfl⟩ := Option.map_eq_some_iff.mp found
        exact .ordering (by simp) (Ty.numericJoin?_eq_some_iff.mp meets)
    | eq | ne =>
        simp only [result?, Option.ite_none_right_eq_some, Option.some.injEq] at found
        obtain ⟨same | numeric, rfl⟩ := found
        · cases same
          exact .comparisonOfOne (by simp)
        · obtain ⟨joined, meets⟩ := Option.isSome_iff_exists.mp numeric
          exact .comparison (by simp) (Ty.numericJoin?_eq_some_iff.mp meets)
    | and | or =>
        simp only [result?, Option.ite_none_right_eq_some, Option.some.injEq] at found
        obtain ⟨⟨rfl, rfl⟩, rfl⟩ := found
        exact .logic (by simp)
  · intro combined
    cases combined with
    | concatenation => rfl
    | arithmetic among meets =>
        have joined := Ty.numericJoin?_eq_some_iff.mpr meets
        have different := meets.ne_string
        simp only [List.mem_cons, List.not_mem_nil, or_false] at among
        rcases among with rfl | rfl | rfl | rfl
        · rw [result?, if_neg (fun strings => different strings.1)]
          exact joined
        · exact joined
        · exact joined
        · exact joined
    | remainder => rfl
    | ordering among meets =>
        have joined := Ty.numericJoin?_eq_some_iff.mpr meets
        simp only [List.mem_cons, List.not_mem_nil, or_false] at among
        rcases among with rfl | rfl | rfl | rfl <;> rw [result?, joined] <;> rfl
    | comparison among meets =>
        have joined := Ty.numericJoin?_eq_some_iff.mpr meets
        simp only [List.mem_cons, List.not_mem_nil, or_false] at among
        rcases among with rfl | rfl <;> rw [result?, joined] <;> simp
    | comparisonOfOne among =>
        simp only [List.mem_cons, List.not_mem_nil, or_false] at among
        rcases among with rfl | rfl <;> rw [result?, if_pos (.inl rfl)]
    | logic among =>
        simp only [List.mem_cons, List.not_mem_nil, or_false] at among
        rcases among with rfl | rfl <;> rfl

theorem BinaryOp.check_iff {op : BinaryOp} {left right ty : Ty} {widening : Bool} {span : Span}
    (leftSound : left ≠ .error) (rightSound : right ≠ .error) :
    op.check left right widening span = (ty, []) ↔ Combines widening op left right ty := by
  rw [← result?_eq_some_iff, check]
  cases found : op.result? left right widening <;>
    simp [Ty.isError, leftSound, rightSound]

theorem UnaryOp.check_iff {op : UnaryOp} {operand ty : Ty} {span : Span}
    (sound : operand ≠ .error) :
    op.check operand span = (ty, []) ↔ Applies op operand ty := by
  constructor
  · intro checked
    cases op <;> cases operand <;> simp [check, takes, Ty.isError, Ty.isNumeric] at checked sound
    all_goals
      subst checked
      constructor
  · intro applied
    cases applied <;> rfl

/-- An operator is checked without a report, or else fails with a mismatch. -/
theorem BinaryOp.check_cases (op : BinaryOp) (left right : Ty) (widening : Bool) (span : Span) :
    (op.check left right widening span).2 = [] ∨ ∃ expected got,
      op.check left right widening span = (.error, [.typeMismatch expected got span]) := by
  unfold check
  split
  · exact .inl rfl
  · split
    · exact .inl rfl
    · exact .inr ⟨_, _, rfl⟩

theorem UnaryOp.check_cases (op : UnaryOp) (operand : Ty) (span : Span) :
    (op.check operand span).2 = [] ∨ ∃ expected got,
      op.check operand span = (.error, [.typeMismatch expected got span]) := by
  unfold check
  split
  · exact .inl rfl
  · exact .inr ⟨_, _, rfl⟩

theorem Ty.checkStore_cases (target value : Ty) (widening : Bool) (span : Span) :
    target.checkStore value widening span = [] ∨ ∃ expected got,
      target.checkStore value widening span = [.typeMismatch expected got span] := by
  unfold checkStore
  split
  · exact .inl rfl
  · exact .inr ⟨_, _, rfl⟩

theorem Ty.checkStore_eq_nil_iff {target value : Ty} {widening : Bool} {span : Span}
    (targetSound : target ≠ .error) (valueSound : value ≠ .error) :
    target.checkStore value widening span = [] ↔ Fits widening target value := by
  rw [checkStore]
  constructor
  · intro checked
    cases target <;> cases value <;> cases widening <;> simp_all [accepts, isError] <;>
      constructor
    rfl
  · intro fits
    cases fits with
    | same => rw [accepts_self, if_pos rfl]
    | widened widened => rw [widened]; rfl

theorem Typing.Combines.ne_error {op : BinaryOp} {left right ty : Ty} {widening : Bool}
    (combined : Combines widening op left right ty) : ty ≠ .error := by
  cases combined with
  | arithmetic _ meets => cases meets <;> simp
  | _ => simp

/-! ### Names -/

def ScopeStack.context (stack : ScopeStack) : Context :=
  stack.map fun names => names.map fun declared => (declared.name, declared.ty)

theorem lookup_context (names : List Declared) (name : String) :
    (names.map fun declared => (declared.name, declared.ty)).lookup name =
      (names.find? (·.name == name)).map (·.ty) := by
  induction names with
  | nil => rfl
  | cons declared names inductionHypothesis =>
      rw [List.map_cons, List.lookup_cons, List.find?_cons, inductionHypothesis,
        @BEq.comm String _ _ name]
      cases declared.name == name <;> rfl

theorem ScopeStack.resolves_iff {stack : ScopeStack} {name : String} {ty : Ty} :
    Resolves stack.context name ty ↔ ∃ declared, stack.find? name = some declared ∧
      declared.ty = ty := by
  rw [← Option.map_eq_some_iff]
  induction stack with
  | nil =>
      constructor <;> intro resolved <;> cases resolved
  | cons names outer inductionHypothesis =>
      rw [ScopeStack.find?_cons]
      have here := lookup_context names name
      constructor
      · intro resolved
        cases resolved with
        | here found =>
            rw [here] at found
            cases entry : names.find? (·.name == name) <;> simp_all
        | further fresh resolved =>
            rw [Fresh, here, Option.map_eq_none_iff] at fresh
            rw [fresh, Option.none_or]
            exact inductionHypothesis.mp resolved
      · intro found
        cases entry : names.find? (·.name == name) with
        | none =>
            rw [entry, Option.none_or] at found
            refine .further ?_ (inductionHypothesis.mpr found)
            rw [Fresh, here, entry, Option.map_none]
        | some declared =>
            rw [entry, Option.some_or] at found
            exact .here (by rw [here, entry]; exact found)

/-- No name has the type of failed expressions. -/
def Typing.Sound (context : Context) : Prop :=
  ∀ (name : String) (ty : Ty), Resolves context name ty → ty ≠ .error

theorem Typing.Sound.enter {context : Context} (sound : Sound context) : Sound ([] :: context) := by
  intro name ty resolved
  cases resolved with
  | here found => cases found
  | further fresh resolved => exact sound _ _ resolved

theorem Typing.Sound.declare {context : Context} (sound : Sound context) {declared : Declaration}
    (declarable : declared.ty ≠ .error) : Sound (declare declared context) := by
  cases context with
  | nil => exact sound
  | cons bindings outer =>
      intro name ty resolved
      cases resolved with
      | here found =>
          rw [List.lookup_cons] at found
          split at found
          · cases found
            exact declarable
          · exact sound _ _ (.here found)
      | further fresh resolved =>
          rw [Fresh, List.lookup_cons] at fresh
          split at fresh
          · cases fresh
          · exact sound _ _ (.further fresh resolved)

/-! ### Expressions -/

theorem Typing.HasType.ne_error {widening : Bool} {context : Context} {expression : Expression}
    {ty : Ty} (sound : Sound context) (typed : HasType widening context expression ty) :
    ty ≠ .error := by
  cases typed with
  | @literal value span => cases value <;> simp [Literal.ty]
  | identifier resolved => exact sound _ _ resolved
  | binary _ _ combined => exact combined.ne_error
  | unary _ applied => cases applied <;> simp

section Decisions

variable {widening : Bool} {table : ScopeTable} {stack : ScopeStack}

theorem Expression.check_binary (op : BinaryOp) (left right : Expression) (span : Span) :
    (binary op left right span).check widening table =
      ((op.check (left.check widening table).1 (right.check widening table).1 widening span).1,
        (left.check widening table).2 ++ (right.check widening table).2 ++
          (op.check (left.check widening table).1 (right.check widening table).1 widening
            span).2) := by
  rw [check]

theorem Expression.check_unary (op : UnaryOp) (operand : Expression) (span : Span) :
    (unary op operand span).check widening table =
      ((op.check (operand.check widening table).1 span).1,
        (operand.check widening table).2 ++ (op.check (operand.check widening table).1 span).2) := by
  rw [check]

theorem Expression.checkCondition_eq (condition : Expression) :
    condition.checkCondition widening table =
      if (condition.check widening table).1 = .bool ∨ (condition.check widening table).1 = .error
      then (condition.check widening table).2
      else (condition.check widening table).2 ++
        [.mismatch .bool (condition.check widening table).1 condition.span] := by
  rw [checkCondition]

theorem Identifier.check_iff {name : Identifier} {ty : Ty} (views : table.Views stack) :
    name.check table = (ty, []) ↔ Resolves stack.context name.name ty := by
  rw [check, views.lookup?, ScopeStack.resolves_iff]
  cases stack.find? name.name <;> simp

theorem Expression.check_iff (views : table.Views stack) (sound : Sound stack.context)
    {expression : Expression} {ty : Ty} :
    expression.check widening table = (ty, []) ↔
      HasType widening stack.context expression ty := by
  induction expression generalizing ty with
  | literal value span =>
      constructor
      · intro checked
        cases checked
        exact .literal
      · intro typed
        cases typed
        rfl
  | identifier name =>
      constructor
      · intro checked
        exact .identifier ((Identifier.check_iff views).mp checked)
      · intro typed
        cases typed with
        | identifier resolved => exact (Identifier.check_iff views).mpr resolved
  | binary op left right span leftHypothesis rightHypothesis =>
      rw [check_binary]
      constructor
      · intro checked
        rw [Prod.mk.injEq, List.append_eq_nil_iff, List.append_eq_nil_iff] at checked
        obtain ⟨found, ⟨leftClean, rightClean⟩, clean⟩ := checked
        have leftTyped := leftHypothesis.mp (Prod.ext rfl leftClean)
        have rightTyped := rightHypothesis.mp (Prod.ext rfl rightClean)
        have leftSound := leftTyped.ne_error sound
        have rightSound := rightTyped.ne_error sound
        exact .binary leftTyped rightTyped
          ((BinaryOp.check_iff leftSound rightSound).mp (Prod.ext found clean))
      · intro typed
        cases typed with
        | binary leftTyped rightTyped combined =>
            have leftSound := leftTyped.ne_error sound
            have rightSound := rightTyped.ne_error sound
            rw [leftHypothesis.mpr leftTyped, rightHypothesis.mpr rightTyped,
              (BinaryOp.check_iff leftSound rightSound).mpr combined]
            rfl
  | unary op operand span inductionHypothesis =>
      rw [check_unary]
      constructor
      · intro checked
        rw [Prod.mk.injEq, List.append_eq_nil_iff] at checked
        obtain ⟨found, operandClean, clean⟩ := checked
        have operandTyped := inductionHypothesis.mp (Prod.ext rfl operandClean)
        have operandSound := operandTyped.ne_error sound
        exact .unary operandTyped
          ((UnaryOp.check_iff operandSound).mp (Prod.ext found clean))
      · intro typed
        cases typed with
        | unary operandTyped applied =>
            have operandSound := operandTyped.ne_error sound
            rw [inductionHypothesis.mpr operandTyped,
              (UnaryOp.check_iff operandSound).mpr applied]
            rfl

/-- An expression without a report has the type that the check finds. -/
theorem Expression.hasType_of_clean (views : table.Views stack) (sound : Sound stack.context)
    {expression : Expression} (clean : (expression.check widening table).2 = []) :
    HasType widening stack.context expression (expression.check widening table).1 :=
  (check_iff views sound).mp (Prod.ext rfl clean)

theorem Expression.checkCondition_iff (views : table.Views stack) (sound : Sound stack.context)
    {condition : Expression} :
    condition.checkCondition widening table = [] ↔
      HasType widening stack.context condition .bool := by
  rw [checkCondition_eq]
  constructor
  · intro checked
    split at checked
    · rename_i fits
      have typed := hasType_of_clean views sound checked
      rcases fits with bool | failed
      · exact bool ▸ typed
      · exact absurd failed (typed.ne_error sound)
    · simp at checked
  · intro typed
    rw [(check_iff views sound).mpr typed, if_pos (.inl rfl)]

/-- A value goes without a report where a type is wanted. -/
theorem Expression.checkStore_iff (views : table.Views stack) (sound : Sound stack.context)
    {value : Expression} {target : Ty} {span : Span} (targetSound : target ≠ .error) :
    (value.check widening table).2 ++
        target.checkStore (value.check widening table).1 widening span = [] ↔
      ∃ ty, HasType widening stack.context value ty ∧ Fits widening target ty := by
  rw [List.append_eq_nil_iff]
  constructor
  · rintro ⟨clean, fits⟩
    have typed := hasType_of_clean views sound clean
    have valueSound := typed.ne_error sound
    exact ⟨_, typed, (Ty.checkStore_eq_nil_iff targetSound valueSound).mp fits⟩
  · rintro ⟨ty, typed, fits⟩
    have valueSound := typed.ne_error sound
    rw [(check_iff views sound).mpr typed]
    exact ⟨rfl, (Ty.checkStore_eq_nil_iff targetSound valueSound).mpr fits⟩

end Decisions

end StagedAnalysis
