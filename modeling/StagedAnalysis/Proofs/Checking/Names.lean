import Mathlib.Data.List.Forall2
import StagedAnalysis.Proofs.Checking.Programs
import StagedAnalysis.Proofs.Naming
/-!
Checking finds the same faults of names as a resolver that knows no types.

The resolver has the scopes of the checker: scope by scope, a name has its first declaration at the
same place. Types decide on none of the faults of names, so the faults of the checker without the
mismatches are those of the resolver, in the same order; they do not depend on the mode either.
-/
namespace StagedAnalysis

open Naming (Scopes)

def namesOnly (errors : List AnalysisError) : List AnalysisError :=
  errors.filter (·.isAboutNames)

theorem namesOnly_append (first second : List AnalysisError) :
    namesOnly (first ++ second) = namesOnly first ++ namesOnly second :=
  List.filter_append first second

/-! ### The same scopes -/

/-- A scope of the checker and one of the resolver have the first declarations at the same
places. -/
def Naming.Mirrors (names : List Declared) (scope : Naming.Scope) : Prop :=
  ∀ name, (names.find? (·.name == name)).map (·.span) =
    (scope.find? (·.name == name)).map (·.span)

def Naming.MirrorsAll (stack : ScopeStack) (scopes : Scopes) : Prop :=
  List.Forall₂ Naming.Mirrors stack scopes

namespace Naming

variable {names : List Declared} {scope : Naming.Scope} {stack outer : ScopeStack} {scopes : Scopes}

theorem mirrors_nil : Mirrors [] [] :=
  fun _ => rfl

theorem Mirrors.isSome_eq (mirrors : Mirrors names scope) (name : String) :
    (names.find? (·.name == name)).isSome = (scope.find? (·.name == name)).isSome := by
  rw [← @Option.isSome_map _ _ Declared.span, mirrors name, Option.isSome_map]

theorem MirrorsAll.enter (mirrors : MirrorsAll stack scopes) :
    MirrorsAll ([] :: stack) ([] :: scopes) :=
  .cons mirrors_nil mirrors

theorem MirrorsAll.tail (mirrors : MirrorsAll (names :: outer) scopes) :
    MirrorsAll outer scopes.tail := by
  cases mirrors with
  | cons _ around => exact around

/-- A name is bound where it is found. -/
theorem MirrorsAll.binds (mirrors : MirrorsAll stack scopes) (name : String) :
    scopes.binds name = (stack.find? name).isSome := by
  induction mirrors with
  | nil => rfl
  | @cons names scope outer around same _ inductionHypothesis =>
      unfold Scopes.binds at inductionHypothesis ⊢
      rw [List.any_cons, inductionHypothesis, ScopeStack.find?_cons, Option.isSome_or,
        same.isSome_eq, List.isSome_find?]

/-- A declaration goes to both scopes behind what is there. -/
theorem Mirrors.extend (mirrors : Mirrors names scope) (declared : Declaration) :
    Mirrors (declared.extend names) (scope ++ [declared.name]) := by
  intro name
  rw [declared.find?_extend, List.find?_append, Option.map_or, Option.map_or, mirrors name,
    List.find?_singleton]
  by_cases named : declared.name.name = name
  · rw [if_pos named, if_pos (beq_iff_eq.mpr named)]
    rfl
  · rw [if_neg named, if_neg (mt beq_iff_eq.mp named)]
    rfl

theorem MirrorsAll.declare (mirrors : MirrorsAll (names :: outer) scopes)
    (declared : Declaration) :
    MirrorsAll (declared.extend names :: outer) (scopes.declare declared.name) := by
  cases mirrors with
  | cons same around => exact .cons (same.extend declared) around

theorem MirrorsAll.first? (mirrors : MirrorsAll (names :: outer) scopes) (name : String) :
    (scopes.first? name).map (·.span) = (names.find? (·.name == name)).map (·.span) := by
  cases mirrors with
  | cons same around => exact (same name).symm

end Naming

open Naming

/-! ### Expressions -/

variable {widening : Bool} {table : ScopeTable} {stack : ScopeStack} {scopes : Scopes}

theorem Ty.checkStore_names (target value : Ty) (span : Span) :
    namesOnly (target.checkStore value widening span) = [] := by
  rcases target.checkStore_cases value widening span with fits | ⟨_, _, unfit⟩
  · rw [fits]
    rfl
  · rw [unfit]
    rfl

theorem BinaryOp.check_names (op : BinaryOp) (left right : Ty) (span : Span) :
    namesOnly (op.check left right widening span).2 = [] := by
  rcases op.check_cases left right widening span with taken | ⟨_, _, rejected⟩
  · rw [taken]
    rfl
  · rw [rejected]
    rfl

theorem UnaryOp.check_names (op : UnaryOp) (operand : Ty) (span : Span) :
    namesOnly (op.check operand span).2 = [] := by
  rcases op.check_cases operand span with taken | ⟨_, _, rejected⟩
  · rw [taken]
    rfl
  · rw [rejected]
    rfl

theorem Identifier.check_names (views : table.Views stack) (mirrors : MirrorsAll stack scopes)
    (name : Identifier) : namesOnly (name.check table).2 = name.resolve scopes := by
  unfold check resolve
  rw [views.lookup?, mirrors.binds]
  cases stack.find? name.name <;> rfl

theorem Expression.check_names (views : table.Views stack) (mirrors : MirrorsAll stack scopes)
    (expression : Expression) :
    namesOnly (expression.check widening table).2 = expression.resolve scopes := by
  induction expression with
  | literal value span => rfl
  | identifier name => exact name.check_names views mirrors
  | binary op left right span leftSame rightSame =>
      rw [check_binary, resolve, namesOnly_append, namesOnly_append, leftSame, rightSame,
        op.check_names, List.append_nil]
  | unary op operand span same =>
      rw [check_unary, resolve, namesOnly_append, same, op.check_names, List.append_nil]

theorem Expression.checkCondition_names (views : table.Views stack)
    (mirrors : MirrorsAll stack scopes) (condition : Expression) :
    namesOnly (condition.checkCondition widening table) = condition.resolve scopes := by
  rw [checkCondition_eq]
  split
  · exact condition.check_names views mirrors
  · rw [namesOnly_append, condition.check_names views mirrors]
    exact List.append_nil _

/-! ### Statements -/

theorem Declaration.check_names {names : List Declared} {outer : ScopeStack}
    (views : table.Views (names :: outer)) (mirrors : MirrorsAll (names :: outer) scopes)
    (declared : Declaration) :
    namesOnly (declared.check widening table).2 = (declared.resolve scopes).2 := by
  rw [check_errors, resolve, namesOnly_append]
  dsimp only
  congr 1
  · cases declared.value? with
    | none => rfl
    | some value =>
        rw [Option.map_some, Option.map_some, Option.getD_some, Option.getD_some,
          namesOnly_append, value.check_names views mirrors, Ty.checkStore_names, List.append_nil]
  · have first := mirrors.first? declared.name.name
    cases found : names.find? (·.name == declared.name.name) with
    | some existing =>
        rw [found, Option.map_some] at first
        rcases Option.map_eq_some_iff.mp first with ⟨place, isFirst, same⟩
        rw [views.define_of_some found, isFirst, ← same]
        rfl
    | none =>
        have define := @ScopeTable.Views.define_of_none _ _ _ views
          ⟨declared.name.name, declared.ty, declared.name.span⟩ found
        rcases define with ⟨extended, defined, _⟩
        rw [found, Option.map_none, Option.map_eq_none_iff] at first
        rw [defined, first]
        rfl

theorem Assignment.check_names (views : table.Views stack) (mirrors : MirrorsAll stack scopes)
    (stored : Assignment) : namesOnly (stored.check widening table) = stored.resolve scopes := by
  unfold check resolve
  dsimp only
  rw [namesOnly_append, namesOnly_append, namesOnly_append,
    stored.target.check_names views mirrors, stored.value.check_names views mirrors,
    Ty.checkStore_names, List.append_nil]
  cases stored.op.step? with
  | none => exact List.append_nil _
  | some step => rw [step.check_names, List.append_nil]

theorem LoopStart.check_names {names : List Declared} {outer : ScopeStack}
    (views : table.Views (names :: outer)) (mirrors : MirrorsAll (names :: outer) scopes)
    (start : LoopStart) :
    namesOnly (start.check widening table).2 = (start.resolve scopes).2 := by
  cases start with
  | nothing => rfl
  | declaration declared => exact declared.check_names views mirrors
  | assignment stored => exact stored.check_names views mirrors

theorem LoopStart.resolve_mirrors {names : List Declared} {outer : ScopeStack}
    (mirrors : MirrorsAll (names :: outer) scopes) (start : LoopStart) :
    MirrorsAll (start.extend names :: outer) (start.resolve scopes).1 := by
  cases start with
  | nothing => exact mirrors
  | declaration declared => exact mirrors.declare declared
  | assignment stored => exact mirrors

theorem namesOnly_part {α : Type} {part? : Option α} {reports names : α → List AnalysisError}
    (each : ∀ part, namesOnly (reports part) = names part) :
    namesOnly ((part?.map reports).getD []) = (part?.map names).getD [] := by
  cases part? with
  | none => rfl
  | some part => exact each part

namespace Statement

mutual

/-- The scopes of the resolver go along with those of the checker. -/
theorem resolve_mirrors (statement : Statement) {names : List Declared} {outer : ScopeStack}
    {scopes : Scopes} (mirrors : MirrorsAll (names :: outer) scopes) :
    MirrorsAll (statement.extend names :: outer) (statement.resolve scopes).1 := by
  cases statement with
  | declaration declared => exact mirrors.declare declared
  | assignment stored => exact mirrors
  | ifThen condition branch span =>
      rw [resolve_ifThen]
      exact (resolve_mirrors branch mirrors.enter).tail
  | ifElse condition branch otherwise span =>
      rw [resolve_ifElse]
      have between := (resolve_mirrors branch mirrors.enter).tail
      exact (resolve_mirrors otherwise between.enter).tail
  | whileLoop condition body span =>
      rw [resolve_whileLoop]
      exact (resolve_mirrors body mirrors.enter).tail
  | forLoop start condition? update? body span =>
      rw [resolve_forLoop]
      have header := start.resolve_mirrors mirrors.enter
      exact (resolve_mirrors body header.enter).tail.tail
  | print value span => exact mirrors
  | block body span =>
      rw [resolve_block]
      exact (resolveAll_mirrors body mirrors.enter).tail
  | empty span => exact mirrors

theorem resolveAll_mirrors (statements : List Statement) {names : List Declared}
    {outer : ScopeStack} {scopes : Scopes} (mirrors : MirrorsAll (names :: outer) scopes) :
    MirrorsAll (extendAll statements names :: outer) (resolveAll scopes statements).1 := by
  cases statements with
  | nil => exact mirrors
  | cons statement statements =>
      rw [resolveAll_cons]
      exact resolveAll_mirrors statements (resolve_mirrors statement mirrors)

end

mutual

/-- The faults of names in a statement are those that the resolver finds. -/
theorem check_names (statement : Statement) {table : ScopeTable} {names : List Declared}
    {outer : ScopeStack} {scopes : Scopes} (views : table.Views (names :: outer))
    (mirrors : MirrorsAll (names :: outer) scopes) :
    namesOnly (statement.check widening table).2 = (statement.resolve scopes).2 := by
  cases statement with
  | declaration declared => exact declared.check_names views mirrors
  | assignment stored => exact stored.check_names views mirrors
  | ifThen condition branch span =>
      rw [check_ifThen, resolve_ifThen, namesOnly_append,
        condition.checkCondition_names views mirrors,
        check_names branch views.enter mirrors.enter]
  | ifElse condition branch otherwise span =>
      have between := (check_views widening branch views.enter).leave (List.cons_ne_nil _ _)
      have betweenMirrors := (resolve_mirrors branch mirrors.enter).tail
      rw [check_ifElse, resolve_ifElse, namesOnly_append, namesOnly_append,
        condition.checkCondition_names views mirrors,
        check_names branch views.enter mirrors.enter,
        check_names otherwise between.enter betweenMirrors.enter]
  | whileLoop condition body span =>
      rw [check_whileLoop, resolve_whileLoop, namesOnly_append,
        condition.checkCondition_names views mirrors,
        check_names body views.enter mirrors.enter]
  | forLoop start condition? update? body span =>
      have header := start.check_views widening views.enter
      have headerMirrors := start.resolve_mirrors mirrors.enter
      rw [check_forLoop, resolve_forLoop, namesOnly_append, namesOnly_append, namesOnly_append,
        start.check_names views.enter mirrors.enter,
        namesOnly_part fun condition => condition.checkCondition_names header headerMirrors,
        namesOnly_part fun update => update.check_names header headerMirrors,
        check_names body header.enter headerMirrors.enter]
  | print value span => exact value.check_names views mirrors
  | block body span =>
      rw [check_block, resolve_block]
      exact checkAll_names body views.enter mirrors.enter
  | empty span => rfl

theorem checkAll_names (statements : List Statement) {table : ScopeTable} {names : List Declared}
    {outer : ScopeStack} {scopes : Scopes} (views : table.Views (names :: outer))
    (mirrors : MirrorsAll (names :: outer) scopes) :
    namesOnly (checkAll widening table statements).2 = (resolveAll scopes statements).2 := by
  cases statements with
  | nil => rfl
  | cons statement statements =>
      rw [checkAll_cons, resolveAll_cons, namesOnly_append, check_names statement views mirrors,
        checkAll_names statements (check_views widening statement views)
          (resolve_mirrors statement mirrors)]

end

end Statement

/-! ### Programs -/

theorem Program.check_names (program : Program) (strict : Bool) :
    namesOnly (program.check strict) = program.resolve := by
  rw [check_eq]
  exact Statement.checkAll_names program.statements ScopeTable.outermost_views
    (.cons mirrors_nil .nil)

/-- The faults of names that checking finds are those of the resolver, one by one and in order, in
either mode; so they are the same in both. -/
theorem Program.name_faults_are_resolved (program : Program) :
    (∀ strict, (program.check strict).filter (·.isAboutNames) = program.resolve) ∧
      (program.check true).filter (·.isAboutNames) =
        (program.check false).filter (·.isAboutNames) := by
  have resolved := program.check_names
  exact ⟨resolved, (resolved true).trans (resolved false).symm⟩

end StagedAnalysis
