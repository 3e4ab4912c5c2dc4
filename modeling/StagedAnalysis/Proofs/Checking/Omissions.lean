import StagedAnalysis.Proofs.Checking.Frames
import StagedAnalysis.Proofs.Checking.Programs
/-!
A program without one of its statements.

What is reported on a statement depends on nothing but the names that can be seen. A statement that
is no declaration leaves these as they are, so what stands behind it is reported on as if it were
not there. Where it is left out of its list, be it the program itself or a block deep inside, its
own reports are missing and all others stay.
-/
namespace StagedAnalysis

/-! ### Reports and what can be seen -/

section Congruence

variable {widening : Bool} {table other : ScopeTable} {names : List Declared}
  {outer stack : ScopeStack}

theorem Identifier.check_congr (views : table.Views stack) (others : other.Views stack)
    (name : Identifier) : name.check table = name.check other := by
  rw [check, check, views.lookup?, others.lookup?]

theorem Expression.check_congr (views : table.Views stack) (others : other.Views stack)
    (expression : Expression) :
    expression.check widening table = expression.check widening other := by
  induction expression with
  | literal value span => rfl
  | identifier name => exact name.check_congr views others
  | binary op left right span leftSame rightSame =>
      rw [check_binary, check_binary, leftSame, rightSame]
  | unary op operand span same => rw [check_unary, check_unary, same]

theorem Expression.checkCondition_congr (views : table.Views stack) (others : other.Views stack)
    (condition : Expression) :
    condition.checkCondition widening table = condition.checkCondition widening other := by
  rw [checkCondition, checkCondition, condition.check_congr views others]

theorem Declaration.check_congr (views : table.Views (names :: outer))
    (others : other.Views (names :: outer)) (declared : Declaration) :
    (declared.check widening table).2 = (declared.check widening other).2 := by
  rw [check_errors, check_errors]
  congr 1
  · cases declared.value? with
    | none => rfl
    | some value =>
        rw [Option.map_some, Option.map_some, value.check_congr views others]
  · unfold ScopeTable.define
    rw [views.lookupLocal?, others.lookupLocal?]
    cases names.find? (·.name == declared.name.name) <;> rfl

theorem Assignment.check_congr (views : table.Views stack) (others : other.Views stack)
    (stored : Assignment) : stored.check widening table = stored.check widening other := by
  rw [check, check, stored.target.check_congr views others, stored.value.check_congr views others]

theorem LoopStart.check_congr (views : table.Views (names :: outer))
    (others : other.Views (names :: outer)) (start : LoopStart) :
    (start.check widening table).2 = (start.check widening other).2 := by
  cases start with
  | nothing => rfl
  | declaration declared => exact declared.check_congr views others
  | assignment stored => exact stored.check_congr views others

namespace Statement

mutual

/-- The reports on a statement are the same wherever the same names can be seen. -/
theorem check_congr (statement : Statement) {table other : ScopeTable} {names : List Declared}
    {outer : ScopeStack} (views : table.Views (names :: outer))
    (others : other.Views (names :: outer)) :
    (statement.check widening table).2 = (statement.check widening other).2 := by
  cases statement with
  | declaration declared => exact declared.check_congr views others
  | assignment stored => exact stored.check_congr views others
  | ifThen condition branch span =>
      rw [check_ifThen, check_ifThen, condition.checkCondition_congr views others,
        check_congr branch views.enter others.enter]
  | ifElse condition branch otherwise span =>
      have between := (check_views widening branch views.enter).leave (List.cons_ne_nil _ _)
      have otherBetween := (check_views widening branch others.enter).leave
        (List.cons_ne_nil _ _)
      rw [check_ifElse, check_ifElse, condition.checkCondition_congr views others,
        check_congr branch views.enter others.enter,
        check_congr otherwise between.enter otherBetween.enter]
  | whileLoop condition body span =>
      rw [check_whileLoop, check_whileLoop, condition.checkCondition_congr views others,
        check_congr body views.enter others.enter]
  | forLoop start condition? update? body span =>
      have header := start.check_views widening views.enter
      have otherHeader := start.check_views widening others.enter
      have conditionSame := funext fun condition : Expression =>
        @Expression.checkCondition_congr widening _ _ _ header otherHeader condition
      have updateSame := funext fun update : Assignment =>
        @Assignment.check_congr widening _ _ _ header otherHeader update
      rw [check_forLoop, check_forLoop, start.check_congr views.enter others.enter, conditionSame,
        updateSame, check_congr body header.enter otherHeader.enter]
  | print value span =>
      change (value.check widening table).2 = (value.check widening other).2
      rw [value.check_congr views others]
  | block body span =>
      rw [check_block, check_block]
      exact checkAll_congr body views.enter others.enter
  | empty span => rfl

theorem checkAll_congr (statements : List Statement) {table other : ScopeTable}
    {names : List Declared} {outer : ScopeStack} (views : table.Views (names :: outer))
    (others : other.Views (names :: outer)) :
    (checkAll widening table statements).2 = (checkAll widening other statements).2 := by
  cases statements with
  | nil => rfl
  | cons statement statements =>
      rw [checkAll_cons, checkAll_cons, check_congr statement views others,
        checkAll_congr statements (check_views widening statement views)
          (check_views widening statement others)]

end

end Statement

end Congruence

/-! ### Leaving a statement out -/

/-- The second list is the first one without some reports that stand in a row. -/
def AllBut (own whole rest : List AnalysisError) : Prop :=
  ∃ before after, whole = before ++ own ++ after ∧ rest = before ++ after

namespace AllBut

variable {own whole rest : List AnalysisError}

theorem all (own : List AnalysisError) : AllBut own own [] :=
  ⟨[], [], (List.append_nil _).symm, rfl⟩

theorem append (allBut : AllBut own whole rest) (last : List AnalysisError) :
    AllBut own (whole ++ last) (rest ++ last) := by
  rcases allBut with ⟨before, after, rfl, rfl⟩
  exact ⟨before, after ++ last, List.append_assoc _ _ _, List.append_assoc _ _ _⟩

theorem prepend (allBut : AllBut own whole rest) (first : List AnalysisError) :
    AllBut own (first ++ whole) (first ++ rest) := by
  rcases allBut with ⟨before, after, rfl, rfl⟩
  refine ⟨first ++ before, after, ?_, (List.append_assoc _ _ _).symm⟩
  simp only [List.append_assoc]

end AllBut

namespace Statement

mutual

/-- The second statement is the first one with `omitted` left out of one of the lists in it. Where
the first one is checked from the scopes of a table on, it comes to `omitted` in the scopes of
`place`. -/
inductive Omits (widening : Bool) (omitted : Statement) (place : ScopeTable) :
    ScopeTable → Statement → Statement → Prop
  | ifThen {table : ScopeTable} {condition : Expression} {branch rest : Statement} {span : Span}
      (inside : Omits widening omitted place table.enter branch rest) :
      Omits widening omitted place table (.ifThen condition branch span)
        (.ifThen condition rest span)
  | branch {table : ScopeTable} {condition : Expression} {branch rest otherwise : Statement}
      {span : Span} (inside : Omits widening omitted place table.enter branch rest) :
      Omits widening omitted place table (.ifElse condition branch otherwise span)
        (.ifElse condition rest otherwise span)
  | otherwise {table : ScopeTable} {condition : Expression} {branch otherwise rest : Statement}
      {span : Span}
      (inside : Omits widening omitted place
        (branch.check widening table.enter).1.leave.enter otherwise rest) :
      Omits widening omitted place table (.ifElse condition branch otherwise span)
        (.ifElse condition branch rest span)
  | whileLoop {table : ScopeTable} {condition : Expression} {body rest : Statement} {span : Span}
      (inside : Omits widening omitted place table.enter body rest) :
      Omits widening omitted place table (.whileLoop condition body span)
        (.whileLoop condition rest span)
  | forLoop {table : ScopeTable} {start : LoopStart} {condition? : Option Expression}
      {update? : Option Assignment} {body rest : Statement} {span : Span}
      (inside : Omits widening omitted place (start.check widening table.enter).1.enter body rest) :
      Omits widening omitted place table (.forLoop start condition? update? body span)
        (.forLoop start condition? update? rest span)
  | block {table : ScopeTable} {body rest : List Statement} {span : Span}
      (inside : OmitsOne widening omitted place table.enter body rest) :
      Omits widening omitted place table (.block body span) (.block rest span)

inductive OmitsOne (widening : Bool) (omitted : Statement) (place : ScopeTable) :
    ScopeTable → List Statement → List Statement → Prop
  | here {statements : List Statement} :
      OmitsOne widening omitted place place (omitted :: statements) statements
  | inside {table : ScopeTable} {statement rest : Statement} {statements : List Statement}
      (inner : Omits widening omitted place table statement rest) :
      OmitsOne widening omitted place table (statement :: statements) (rest :: statements)
  | later {table : ScopeTable} {statement : Statement} {statements rest : List Statement}
      (behind : OmitsOne widening omitted place (statement.check widening table).1 statements
        rest) :
      OmitsOne widening omitted place table (statement :: statements) (statement :: rest)

end

section Omission

variable {widening : Bool} {omitted : Statement} {place : ScopeTable}

/-- Each statement of a list can be left out of it. -/
theorem omitsOne_append (before : List Statement) (table : ScopeTable)
    (statements : List Statement) :
    OmitsOne widening omitted (checkAll widening table before).1 table
      (before ++ omitted :: statements) (before ++ statements) := by
  induction before generalizing table with
  | nil => exact .here
  | cons statement before inductionHypothesis =>
      rw [checkAll_cons]
      exact .later (inductionHypothesis _)

/-- Statements that declare nothing in the scope around them. -/
theorem Omits.extend {table : ScopeTable} {whole rest : Statement}
    (omits : Omits widening omitted place table whole rest) (names : List Declared) :
    whole.extend names = names ∧ rest.extend names = names := by
  cases omits <;> exact ⟨rfl, rfl⟩

theorem extend_of_not_declaration (other : ∀ declared, omitted ≠ .declaration declared)
    (names : List Declared) : omitted.extend names = names := by
  cases omitted with
  | declaration declared => exact absurd rfl (other declared)
  | _ => rfl

mutual

/-- A statement without one of the statements in it: that one's reports are missing, and no more. -/
theorem Omits.errors {table : ScopeTable} {whole rest : Statement} {names : List Declared}
    {outer : ScopeStack} (other : ∀ declared, omitted ≠ .declaration declared)
    (omits : Omits widening omitted place table whole rest) (views : table.Views (names :: outer)) :
    AllBut (omitted.check widening place).2 (whole.check widening table).2
      (rest.check widening table).2 := by
  cases omits with
  | ifThen inside =>
      rw [check_ifThen, check_ifThen]
      exact (Omits.errors other inside views.enter).prepend _
  | @branch _ _ branch rest otherwise _ inside =>
      have behind := (check_views widening branch views.enter).leave (List.cons_ne_nil _ _)
      have restBehind := (check_views widening rest views.enter).leave (List.cons_ne_nil _ _)
      rw [check_ifElse, check_ifElse, check_congr otherwise behind.enter restBehind.enter]
      exact ((Omits.errors other inside views.enter).prepend _).append _
  | @otherwise _ _ branch _ _ _ inside =>
      have behind := (check_views widening branch views.enter).leave (List.cons_ne_nil _ _)
      rw [check_ifElse, check_ifElse]
      exact (Omits.errors other inside behind.enter).prepend _
  | whileLoop inside =>
      rw [check_whileLoop, check_whileLoop]
      exact (Omits.errors other inside views.enter).prepend _
  | @forLoop _ start _ _ _ _ _ inside =>
      have header := start.check_views widening views.enter
      rw [check_forLoop, check_forLoop]
      exact (Omits.errors other inside header.enter).prepend _
  | block inside =>
      rw [check_block, check_block]
      exact OmitsOne.errors other inside views.enter

theorem OmitsOne.errors {table : ScopeTable} {whole rest : List Statement} {names : List Declared}
    {outer : ScopeStack} (other : ∀ declared, omitted ≠ .declaration declared)
    (omits : OmitsOne widening omitted place table whole rest)
    (views : table.Views (names :: outer)) :
    AllBut (omitted.check widening place).2 (checkAll widening table whole).2
      (checkAll widening table rest).2 := by
  cases omits with
  | here =>
      -- the names behind the statement are the ones before it
      have behind := check_views widening omitted views
      rw [extend_of_not_declaration other] at behind
      rw [checkAll_cons, checkAll_congr rest behind views]
      exact (AllBut.all _).append _
  | @inside _ statement rest statements inner =>
      have behind := check_views widening statement views
      have restBehind := check_views widening rest views
      rw [(inner.extend names).1] at behind
      rw [(inner.extend names).2] at restBehind
      rw [checkAll_cons, checkAll_cons, checkAll_congr statements behind restBehind]
      exact (Omits.errors other inner views).append _
  | @later _ statement _ _ behind =>
      have further := check_views widening statement views
      rw [checkAll_cons, checkAll_cons]
      exact (OmitsOne.errors other behind further).prepend _

end

end Omission

end Statement

def Program.Omits (program : Program) (strict : Bool) (omitted : Statement) (place : ScopeTable)
    (rest : Program) : Prop :=
  Statement.OmitsOne (!strict) omitted place .outermost program.statements rest.statements

theorem Program.omits_append (strict : Bool) (before after : List Statement)
    (omitted : Statement) :
    Omits ⟨before ++ omitted :: after⟩ strict omitted
      (Statement.checkAll (!strict) .outermost before).1 ⟨before ++ after⟩ :=
  Statement.omitsOne_append before .outermost after

theorem Program.Omits.errors {program rest : Program} {strict : Bool} {omitted : Statement}
    {place : ScopeTable} (omits : program.Omits strict omitted place rest)
    (other : ∀ declared, omitted ≠ .declaration declared) :
    AllBut (omitted.check (!strict) place).2 (program.check strict) (rest.check strict) := by
  rw [check_eq, check_eq]
  exact Statement.OmitsOne.errors other omits ScopeTable.outermost_views

namespace Analyzer

/-- Statements leave no trace but their own declaration. Whatever was done with an analyzer, behind
a statement it is in the scope that it was in, and every name is found where it was found before,
but for the name that the statement itself declares. So a statement that is no declaration can be
left out, of the program or of a block anywhere in it: what was reported on it is missing, and the
other reports are the same ones in the same order. -/
theorem statements_leave_no_trace :
    (∀ (operations : List Operation) (widening : Bool) (statement : Statement),
      let table := (perform operations).scopes
      let behind := (statement.check widening table).1
      behind.current = table.current ∧
        ∀ name,
          behind.lookup? name =
              ((statement.newName? table).filter (·.name == name)).or (table.lookup? name) ∧
            behind.lookupLocal? name =
              ((statement.newName? table).filter (·.name == name)).or
                (table.lookupLocal? name)) ∧
      (∀ (strict : Bool) (before after : List Statement) (omitted : Statement),
        Program.Omits ⟨before ++ omitted :: after⟩ strict omitted
          (Statement.checkAll (!strict) .outermost before).1 ⟨before ++ after⟩) ∧
      ∀ (program rest : Program) (strict : Bool) (omitted : Statement) (place : ScopeTable),
        (∀ declared, omitted ≠ .declaration declared) →
        program.Omits strict omitted place rest →
        ∃ before after,
          program.check strict = before ++ (omitted.check (!strict) place).2 ++ after ∧
            rest.check strict = before ++ after := by
  refine ⟨?_, Program.omits_append, ?_⟩
  · intro operations widening statement
    rcases perform_views operations with ⟨names, outer, views⟩
    constructor
    · exact (statement.check_keeps widening _).current
    · intro name
      exact ⟨statement.lookup?_check views name, statement.lookupLocal?_check views name⟩
  · intro program rest strict omitted place other omits
    exact omits.errors other

/-- A print statement of an unknown name, with others before and behind it in a block. -/
theorem statements_leave_no_trace_of_print : ∃ (program rest : Program) (place : ScopeTable)
    (before after : List AnalysisError),
    program.Omits false (.print (.identifier ⟨"first", .origin⟩) .origin) place rest ∧
      program.check false = before ++ [.undefinedVariable "first" .origin] ++ after ∧
        rest.check false = before ++ after := by
  let omitted : Statement := .print (.identifier ⟨"first", .origin⟩) .origin
  let kept : Statement := .print (.identifier ⟨"second", .origin⟩) .origin
  let program : Program := ⟨[.block [kept, omitted, kept] .origin, kept]⟩
  have other : ∀ declared, omitted ≠ .declaration declared := by
    intro declared
    exact Statement.noConfusion
  have omits : program.Omits false omitted ScopeTable.outermost.enter
      ⟨[.block [kept, kept] .origin, kept]⟩ := .inside (.block (.later .here))
  rcases statements_leave_no_trace.2.2 _ _ _ _ _ other omits with
    ⟨before, after, whole, rest⟩
  exact ⟨_, _, _, before, after, omits, whole, rest⟩

end Analyzer

end StagedAnalysis
