import StagedAnalysis.Proofs.Checking.Expressions
import StagedAnalysis.Proofs.Checking.Traces
/-!
Checking decides which statements follow the rules of names and types, by induction on the
statement. What is behind a statement matters only where the statement itself is well formed.
-/
namespace StagedAnalysis

open Typing

section Decisions

variable {widening : Bool} {table : ScopeTable} {stack : ScopeStack}

theorem fresh_iff {names : List Declared} {name : String} :
    Fresh (names.map fun declared => (declared.name, declared.ty)) name ↔
      names.find? (·.name == name) = none := by
  rw [Fresh, lookup_context, Option.map_eq_none_iff]

theorem Declaration.check_iff {names : List Declared} {outer : ScopeStack}
    (views : table.Views (names :: outer)) (sound : Sound (ScopeStack.context (names :: outer)))
    {declared : Declaration} (declarable : declared.ty ≠ .error) :
    (declared.check widening table).2 = [] ↔
      Declares widening (ScopeStack.context (names :: outer)) declared := by
  obtain ⟨ty, name, value?, span⟩ := declared
  rw [check_errors, List.append_eq_nil_iff]
  cases found : names.find? (·.name == name.name) with
  | some existing =>
      rw [views.define_of_some found]
      constructor
      · rintro ⟨_, impossible⟩
        cases impossible
      · intro declares
        cases declares with
        | plain fresh | initialized fresh _ _ =>
            rw [fresh_iff, found] at fresh
            cases fresh
  | none =>
      obtain ⟨extended, defined, _⟩ :=
        @ScopeTable.Views.define_of_none _ _ _ views ⟨name.name, ty, name.span⟩ found
      rw [defined]
      have fresh := fresh_iff.mpr found
      cases value? with
      | none =>
          constructor
          · intro _
            exact .plain fresh
          · intro _
            exact ⟨rfl, rfl⟩
      | some value =>
          have stored := @Expression.checkStore_iff widening _ _ views sound value ty value.span
            declarable
          constructor
          · rintro ⟨clean, _⟩
            obtain ⟨valueTy, typed, fits⟩ := stored.mp clean
            exact .initialized fresh typed fits
          · intro declares
            cases declares with
            | initialized _ typed fits => exact ⟨stored.mpr ⟨_, typed, fits⟩, rfl⟩

theorem AssignOp.eq_set {op : AssignOp} (plain : op.step? = none) : op = .set := by
  cases op with
  | set => rfl
  | _ => cases plain

theorem Assignment.check_plain (target : Identifier) (value : Expression) (span : Span) :
    Assignment.check widening table ⟨target, .set, value, span⟩ =
      (target.check table).2 ++ ((value.check widening table).2 ++
        (target.check table).1.checkStore (value.check widening table).1 widening value.span) := by
  simp [check, AssignOp.step?]

theorem Assignment.check_compound {op : AssignOp} {step : BinaryOp} (steps : op.step? = some step)
    (target : Identifier) (value : Expression) (span : Span) :
    Assignment.check widening table ⟨target, op, value, span⟩ =
      ((Expression.binary step (.identifier target) value value.span).check widening table).2 ++
        (target.check table).1.checkStore
          ((Expression.binary step (.identifier target) value value.span).check widening table).1
          widening value.span := by
  simp [check, steps, Expression.check]

theorem Assignment.check_iff (views : table.Views stack) (sound : Sound stack.context)
    {stored : Assignment} :
    stored.check widening table = [] ↔ Stores widening stack.context stored := by
  obtain ⟨target, op, value, span⟩ := stored
  cases steps : op.step? with
  | none =>
      obtain rfl := AssignOp.eq_set steps
      rw [check_plain, List.append_eq_nil_iff]
      constructor
      · rintro ⟨targetClean, valueClean⟩
        have resolved := (Identifier.check_iff views).mp (Prod.ext rfl targetClean)
        obtain ⟨valueTy, typed, fits⟩ :=
          (Expression.checkStore_iff views sound (sound _ _ resolved)).mp valueClean
        exact .plain resolved typed fits
      · intro stores
        cases stores with
        | plain resolved typed fits =>
            rw [(Identifier.check_iff views).mpr resolved]
            exact ⟨rfl, (Expression.checkStore_iff views sound (sound _ _ resolved)).mpr
              ⟨_, typed, fits⟩⟩
        | compound impossible _ _ _ _ => cases impossible
  | some step =>
      rw [check_compound steps]
      constructor
      · intro checked
        obtain ⟨clean, storeClean⟩ := List.append_eq_nil_iff.mp checked
        have resultTyped := Expression.hasType_of_clean views sound clean
        have resultSound := resultTyped.ne_error sound
        cases resultTyped with
        | binary targetTyped typed combined =>
            cases targetTyped with
            | identifier resolved =>
                rw [(Identifier.check_iff views).mpr resolved] at storeClean
                exact .compound steps resolved typed combined
                  ((Ty.checkStore_eq_nil_iff (sound _ _ resolved) resultSound).mp storeClean)
      · intro stores
        cases stores with
        | plain _ _ _ => cases steps
        | compound again resolved typed combined fits =>
            cases steps.symm.trans again
            rw [(Identifier.check_iff views).mpr resolved]
            exact (Expression.checkStore_iff views sound (sound _ _ resolved)).mpr
              ⟨_, .binary (.identifier resolved) typed combined, fits⟩

/-- The context behind a declaration is the one that the names behind it show. -/
theorem Declaration.extend_context {names : List Declared} {outer : ScopeStack}
    {declared : Declaration} (declares : Declares widening (ScopeStack.context (names :: outer))
      declared) :
    ScopeStack.context (declared.extend names :: outer) =
      declare declared (ScopeStack.context (names :: outer)) := by
  have fresh : names.find? (·.name == declared.name.name) = none := by
    cases declares with
    | plain fresh | initialized fresh _ _ => exact fresh_iff.mp fresh
  rw [extend, fresh]
  rfl

theorem LoopStart.check_iff {names : List Declared} {outer : ScopeStack}
    (views : table.Views (names :: outer)) (sound : Sound (ScopeStack.context (names :: outer)))
    {start : LoopStart} (declarable : ∀ declared ∈ start.declarations, declared.ty ≠ .error) :
    (start.check widening table).2 = [] ↔
      Starts widening (ScopeStack.context (names :: outer)) start := by
  cases start with
  | nothing => exact ⟨fun _ => .nothing, fun _ => rfl⟩
  | declaration declared =>
      rw [LoopStart.check, Declaration.check_iff views sound (declarable declared (by
        simp [LoopStart.declarations]))]
      constructor
      · intro declares
        exact .declaration declares
      · intro starts
        cases starts with
        | declaration declares => exact declares
  | assignment stored =>
      rw [LoopStart.check, Assignment.check_iff views sound]
      constructor
      · intro stores
        exact .assignment stores
      · intro starts
        cases starts with
        | assignment stores => exact stores

theorem LoopStart.extend_context {names : List Declared} {outer : ScopeStack} {start : LoopStart}
    (starts : Starts widening (ScopeStack.context (names :: outer)) start) :
    ScopeStack.context (start.extend names :: outer) =
      behindStart start (ScopeStack.context (names :: outer)) := by
  cases starts with
  | nothing => rfl
  | declaration declares => exact Declaration.extend_context declares
  | assignment _ => rfl

theorem Typing.Sound.behindStart {context : Context} (sound : Sound context) {start : LoopStart}
    (declarable : ∀ declared ∈ start.declarations, declared.ty ≠ .error) :
    Sound (behindStart start context) := by
  cases start with
  | declaration declared =>
      exact sound.declare (declarable declared (by simp [LoopStart.declarations]))
  | _ => exact sound

theorem Typing.Sound.behind {context : Context} (sound : Sound context) {statement : Statement}
    (declarable : ∀ declared ∈ statement.declarations, declared.ty ≠ .error) :
    Sound (behind statement context) := by
  cases statement with
  | declaration declared =>
      exact sound.declare (declarable declared (by simp [Statement.declarations]))
  | _ => exact sound

/-- What may be left out is without a report if it is so wherever it is there. -/
theorem reports_eq_nil_iff {α : Type} {part? : Option α} {reports : α → List AnalysisError} :
    (part?.map reports).getD [] = [] ↔ ∀ part ∈ part?, reports part = [] := by
  cases part? <;> simp

namespace Statement

theorem extend_context {names : List Declared} {outer : ScopeStack} {statement : Statement}
    (formed : WellFormed widening (ScopeStack.context (names :: outer)) statement) :
    ScopeStack.context (statement.extend names :: outer) =
      behind statement (ScopeStack.context (names :: outer)) := by
  cases formed with
  | declaration declares => exact Declaration.extend_context declares
  | _ => rfl

mutual

/-- A statement is checked without a report if and only if it follows the rules. -/
theorem check_iff (statement : Statement) {table : ScopeTable} {names : List Declared}
    {outer : ScopeStack} (views : table.Views (names :: outer))
    (sound : Sound (ScopeStack.context (names :: outer)))
    (declarable : ∀ declared ∈ statement.declarations, declared.ty ≠ .error) :
    (statement.check widening table).2 = [] ↔
      WellFormed widening (ScopeStack.context (names :: outer)) statement := by
  cases statement with
  | declaration declared =>
      have decided := @Declaration.check_iff widening _ _ _ views sound declared
        (declarable declared (List.mem_singleton_self _))
      constructor
      · intro clean
        exact .declaration (decided.mp clean)
      · intro formed
        cases formed with
        | declaration declares => exact decided.mpr declares
  | assignment stored =>
      have decided := @Assignment.check_iff widening _ _ views sound stored
      constructor
      · intro clean
        exact .assignment (decided.mp clean)
      · intro formed
        cases formed with
        | assignment stores => exact decided.mpr stores
  | ifThen condition branch span =>
      rw [check_ifThen, List.append_eq_nil_iff, Expression.checkCondition_iff views sound,
        check_iff branch views.enter sound.enter declarable]
      constructor
      · rintro ⟨tested, formed⟩
        exact .ifThen tested formed
      · intro formed
        cases formed with
        | ifThen tested formed => exact ⟨tested, formed⟩
  | ifElse condition branch otherwise span =>
      obtain ⟨branchDeclarable, otherDeclarable⟩ := List.forall_mem_append.mp declarable
      have between := (check_views widening branch views.enter).leave (List.cons_ne_nil _ _)
      rw [check_ifElse, List.append_eq_nil_iff, List.append_eq_nil_iff,
        Expression.checkCondition_iff views sound,
        check_iff branch views.enter sound.enter branchDeclarable,
        check_iff otherwise between.enter sound.enter otherDeclarable]
      constructor
      · rintro ⟨⟨tested, formed⟩, otherFormed⟩
        exact .ifElse tested formed otherFormed
      · intro formed
        cases formed with
        | ifElse tested formed otherFormed => exact ⟨⟨tested, formed⟩, otherFormed⟩
  | whileLoop condition body span =>
      rw [check_whileLoop, List.append_eq_nil_iff, Expression.checkCondition_iff views sound,
        check_iff body views.enter sound.enter declarable]
      constructor
      · rintro ⟨tested, formed⟩
        exact .whileLoop tested formed
      · intro formed
        cases formed with
        | whileLoop tested formed => exact ⟨tested, formed⟩
  | forLoop start condition? update? body span =>
      obtain ⟨startDeclarable, bodyDeclarable⟩ := List.forall_mem_append.mp declarable
      have header := start.check_views widening views.enter
      rw [check_forLoop, List.append_eq_nil_iff, List.append_eq_nil_iff, List.append_eq_nil_iff,
        LoopStart.check_iff views.enter sound.enter startDeclarable, reports_eq_nil_iff,
        reports_eq_nil_iff]
      -- the context of the rest is known only where the first part is well formed
      have rest (starts : Starts widening (ScopeStack.context ([] :: names :: outer)) start) :=
        LoopStart.extend_context starts
      constructor
      · rintro ⟨⟨⟨started, tested⟩, stepped⟩, bodyClean⟩
        have headerSound : Sound (ScopeStack.context (start.extend [] :: names :: outer)) := by
          rw [rest started]
          exact sound.enter.behindStart startDeclarable
        refine .forLoop started ?_ ?_ ?_
        · intro condition present
          exact rest started ▸
            (Expression.checkCondition_iff header headerSound).mp (tested condition present)
        · intro update present
          exact rest started ▸
            (Assignment.check_iff header headerSound).mp (stepped update present)
        · exact rest started ▸
            (check_iff body header.enter headerSound.enter bodyDeclarable).mp bodyClean
      · intro formed
        cases formed with
        | forLoop started tested stepped formed =>
            have headerSound : Sound (ScopeStack.context (start.extend [] :: names :: outer)) := by
              rw [rest started]
              exact sound.enter.behindStart startDeclarable
            refine ⟨⟨⟨started, ?_⟩, ?_⟩, ?_⟩
            · intro condition present
              exact (Expression.checkCondition_iff header headerSound).mpr
                (rest started ▸ tested condition present)
            · intro update present
              exact (Assignment.check_iff header headerSound).mpr
                (rest started ▸ stepped update present)
            · have bodyFormed : WellFormed widening
                  ([] :: ScopeStack.context (start.extend [] :: names :: outer)) body := by
                rw [rest started]
                exact formed
              exact (check_iff body header.enter headerSound.enter bodyDeclarable).mpr bodyFormed
  | print value span =>
      constructor
      · intro clean
        exact .print (Expression.hasType_of_clean views sound clean)
      · intro formed
        cases formed with
        | print typed => exact congrArg Prod.snd ((Expression.check_iff views sound).mpr typed)
  | block body span =>
      rw [check_block, checkAll_iff body views.enter sound.enter declarable]
      constructor
      · intro formed
        exact .block formed
      · intro formed
        cases formed with
        | block formed => exact formed
  | empty span => exact ⟨fun _ => .empty, fun _ => rfl⟩

theorem checkAll_iff (statements : List Statement) {table : ScopeTable} {names : List Declared}
    {outer : ScopeStack} (views : table.Views (names :: outer))
    (sound : Sound (ScopeStack.context (names :: outer)))
    (declarable : ∀ declared ∈ declarationsAll statements, declared.ty ≠ .error) :
    (checkAll widening table statements).2 = [] ↔
      WellFormedAll widening (ScopeStack.context (names :: outer)) statements := by
  cases statements with
  | nil => exact ⟨fun _ => .nil, fun _ => rfl⟩
  | cons statement statements =>
      obtain ⟨firstDeclarable, othersDeclarable⟩ := List.forall_mem_append.mp declarable
      have firstDecided := @check_iff statement _ _ _ views sound firstDeclarable
      have between := check_views widening statement views
      rw [checkAll_cons, List.append_eq_nil_iff, firstDecided]
      -- the context of the other statements is known only where the first one is well formed
      have others (formed : WellFormed widening (ScopeStack.context (names :: outer)) statement) :
          (checkAll widening (statement.check widening table).1 statements).2 = [] ↔
            WellFormedAll widening (behind statement (ScopeStack.context (names :: outer)))
              statements := by
        rw [← extend_context formed]
        exact checkAll_iff statements between
          (extend_context formed ▸ sound.behind firstDeclarable) othersDeclarable
      constructor
      · rintro ⟨formed, othersClean⟩
        exact .cons formed ((others formed).mp othersClean)
      · intro formedAll
        cases formedAll with
        | cons formed othersFormed => exact ⟨formed, (others formed).mpr othersFormed⟩

end

end Statement

end Decisions

end StagedAnalysis
