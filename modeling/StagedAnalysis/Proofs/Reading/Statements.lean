import StagedAnalysis.Proofs.Reading.Expressions
/-!
Reading statements is reading by the grammar: what is read is derived.

A statement that could still take an `else` is never left in front of one, so the `else` of a
conditional belongs to the nearest `if`.
-/
namespace StagedAnalysis

open Token (Kind)
open Grammar (Complete Declares Stores Starts Perhaps States StatesAll)
open ParseState (Ready Reads)

namespace Token.Kind

theorem assignOp?_eq_some_iff {kind : Kind} {op : AssignOp} :
    kind.assignOp? = some op ↔ kind = .symbol op.sign := by
  constructor
  · intro found
    cases kind with
    | symbol sign => cases sign <;> cases found <;> rfl
    | _ => cases found
  · rintro rfl
    cases op <;> rfl

theorem type?_eq_some_iff {kind : Kind} {ty : Ty} :
    kind.type? = some ty ↔ ∃ word, kind = .keyword word ∧ word.type? = some ty := by
  cases kind <;> simp [type?]

end Token.Kind

theorem Statement.endsOpen_unplaced (statement : Statement) :
    statement.unplaced.endsOpen = statement.endsOpen := by
  cases statement with
  | ifElse condition branch otherwise span => exact endsOpen_unplaced otherwise
  | whileLoop condition body span => exact endsOpen_unplaced body
  | forLoop start condition? update? body span => exact endsOpen_unplaced body
  | _ => rfl

namespace Parse

variable {α : Type} {state behind : ParseState}

/-! ### Success of the parts of statements -/

theorem gives_identifier {name : Identifier} :
    identifier.Gives state name behind ↔
      ∃ text, state.current.kind = .identifier text ∧ ⟨text, state.current.span⟩ = name ∧
        state.advance = behind := by
  simp only [identifier, gives_bind, gives_current, and_assoc, exists_and_left, exists_eq_left']
  cases state.current.kind <;> simp [and_comm]

theorem gives_declaration {ty : Ty} {expression : Parse Expression} {declared : Declaration} :
    (declaration ty expression).Gives state declared behind ↔
      ∃ name between, identifier.Gives state.advance name between ∧
        if between.current.kind = .symbol .assign then
          ∃ value last, expression.Gives between.advance value last ∧
            last.current.kind = .symbol .semicolon ∧ last.advance = behind ∧
            ⟨ty, name, some value, state.current.span.merge behind.previous⟩ = declared
        else
          between.current.kind = .symbol .semicolon ∧ between.advance = behind ∧
            ⟨ty, name, none, state.current.span.merge behind.previous⟩ = declared := by
  simp only [declaration, gives_bind, gives_advance, and_assoc, exists_and_left, exists_eq_left']
  refine exists_congr fun name => exists_congr fun between => and_congr_right fun _ => ?_
  by_cases assigned : between.current.kind = .symbol .assign
  · simp only [gives_accept, assigned, if_true, and_assoc, exists_eq_left, exists_eq_left',
      exists_and_left, gives_ite, gives_bind, gives_expect, gives_previous, gives_pure]
    grind
  · simp only [gives_accept, assigned, if_false, and_assoc, exists_eq_left, exists_eq_left',
      exists_and_left, gives_ite, gives_bind, gives_expectAs, gives_previous, gives_pure,
      Bool.false_eq_true]
    grind

theorem gives_assignment {expression : Parse Expression} {stored : Assignment} :
    (assignment expression).Gives state stored behind ↔
      ∃ target between op value, identifier.Gives state target between ∧
        between.current.kind.assignOp? = some op ∧
        expression.Gives between.advance value behind ∧
        ⟨target, op, value, target.span.merge value.span⟩ = stored := by
  simp only [assignment, gives_bind, gives_current, and_assoc, exists_and_left, exists_eq_left']
  refine exists_congr fun target => exists_congr fun between => and_congr_right fun _ => ?_
  cases between.current.kind.assignOp? with
  | none => simp
  | some op => simp [and_assoc]

theorem gives_parenthesized {expression : Parse Expression} {value : Expression} :
    (parenthesized expression).Gives state value behind ↔
      state.current.kind = .symbol .leftParen ∧ ∃ inside,
        expression.Gives state.advance value inside ∧
          inside.current.kind = .symbol .rightParen ∧ inside.advance = behind := by
  simp only [parenthesized, gives_bind, gives_expect, gives_pure, and_assoc, exists_and_left,
    exists_eq_left']
  grind

theorem gives_conditional {statement : Parse Statement} {expression : Parse Expression}
    {result : Statement} :
    (conditional statement expression).Gives state result behind ↔
      ∃ condition between, (parenthesized expression).Gives state.advance condition between ∧
        ∃ branch last, statement.Gives between branch last ∧
          if last.current.kind = .keyword .elseWord then
            ∃ otherwise, statement.Gives last.advance otherwise behind ∧
              .ifElse condition branch otherwise (state.current.span.merge behind.previous)
                = result
          else last = behind ∧
            .ifThen condition branch (state.current.span.merge behind.previous) = result := by
  simp only [conditional, gives_bind, gives_advance, gives_ite, gives_previous, gives_pure,
    and_assoc, exists_and_left, exists_eq_left']
  refine exists_congr fun condition => exists_congr fun between => and_congr_right fun _ =>
    exists_congr fun branch => exists_congr fun last => and_congr_right fun _ => ?_
  by_cases otherwise : last.current.kind = .keyword .elseWord
  · simp only [gives_accept, otherwise, if_true, and_assoc, exists_eq_left, exists_eq_left',
      exists_and_left]
    grind
  · simp only [gives_accept, otherwise, if_false, and_assoc, exists_eq_left, exists_eq_left',
      exists_and_left, Bool.false_eq_true]
    grind

theorem gives_whileLoop {statement : Parse Statement} {expression : Parse Expression}
    {result : Statement} :
    (whileLoop statement expression).Gives state result behind ↔
      ∃ condition between body,
        (parenthesized expression).Gives state.advance condition between ∧
        statement.Gives between body behind ∧
        .whileLoop condition body (state.current.span.merge behind.previous) = result := by
  simp only [whileLoop, gives_bind, gives_advance, gives_previous, gives_pure, and_assoc,
    exists_and_left, exists_eq_left']
  grind

theorem gives_print {expression : Parse Expression} {result : Statement} :
    (print expression).Gives state result behind ↔
      ∃ value between, (parenthesized expression).Gives state.advance value between ∧
        between.current.kind = .symbol .semicolon ∧ between.advance = behind ∧
        .print value (state.current.span.merge behind.previous) = result := by
  simp only [print, gives_bind, gives_advance, gives_expect, gives_previous, gives_pure,
    and_assoc, exists_and_left, exists_eq_left']
  grind

theorem gives_unlessAt {symbol : Symbol} {step : Parse α} {result : Option α} :
    (unlessAt symbol step).Gives state result behind ↔
      if state.current.kind = .symbol symbol then none = result ∧ state = behind
      else ∃ value, step.Gives state value behind ∧ some value = result := by
  simp only [unlessAt, gives_bind, gives_current, gives_ite, gives_pure, and_assoc,
    exists_and_left, exists_eq_left']
  grind

theorem gives_forLoop {statement : Parse Statement} {expression : Parse Expression}
    {result : Statement} :
    (forLoop statement expression).Gives state result behind ↔
      state.advance.current.kind = .symbol .leftParen ∧
      ∃ start first condition? second update? third body,
        (loopStart expression).Gives state.advance.advance start first ∧
        (unlessAt .semicolon expression).Gives first condition? second ∧
        second.current.kind = .symbol .semicolon ∧
        (unlessAt .rightParen (assignment expression)).Gives second.advance update? third ∧
        third.current.kind = .symbol .rightParen ∧
        statement.Gives third.advance body behind ∧
        .forLoop start condition? update? body (state.current.span.merge behind.previous)
          = result := by
  simp only [forLoop, gives_bind, gives_advance, gives_expect, gives_previous, gives_pure,
    and_assoc, exists_and_left, exists_eq_left']
  grind

theorem gives_block {statement : Parse Statement} {result : Statement} :
    (block statement).Gives state result behind ↔
      state.current.kind = .symbol .leftBrace ∧ ∃ body between,
        (many (fun token => !(token.kind == .symbol .rightBrace || token.isEnd)) statement).Gives
          state.advance body between ∧
        between.current.kind = .symbol .rightBrace ∧ between.advance = behind ∧
        .block body (state.current.span.merge behind.previous) = result := by
  simp only [block, gives_bind, gives_expect, gives_previous, gives_pure, and_assoc,
    exists_and_left, exists_eq_left']
  grind

theorem gives_repeatWhile_cons {goesOn : Token → Bool} {step : Parse α} {token : Token}
    {budget : List Token} {values : List α} :
    (repeatWhile goesOn step (token :: budget)).Gives state values behind ↔
      if goesOn state.current then
        ∃ first between others, step.Gives state first between ∧
          (repeatWhile goesOn step budget).Gives between others behind ∧ first :: others = values
      else [] = values ∧ state = behind := by
  simp only [repeatWhile, gives_bind, gives_current, gives_ite, gives_pure, and_assoc,
    exists_and_left, exists_eq_left']
  grind

theorem gives_many {goesOn : Token → Bool} {step : Parse α} {values : List α} :
    (many goesOn step).Gives state values behind ↔
      (repeatWhile goesOn step state.rest).Gives state values behind :=
  Iff.rfl

theorem gives_loopStart {expression : Parse Expression} {result : LoopStart} :
    (loopStart expression).Gives state result behind ↔
      (∃ ty declared, state.current.kind.type? = some ty ∧
        (declaration ty expression).Gives state declared behind ∧
        .declaration declared = result) ∨
      (state.current.kind = .symbol .semicolon ∧ state.advance = behind ∧ .nothing = result) ∨
      (∃ name stored between, state.current.kind = .identifier name ∧
        (assignment expression).Gives state stored between ∧
        between.current.kind = .symbol .semicolon ∧ between.advance = behind ∧
        .assignment stored = result) := by
  simp only [loopStart, gives_bind, gives_current, and_assoc, exists_and_left,
    exists_eq_left', bind_pure_comp]
  cases state.current.kind with
  | keyword word => cases word <;> simp [Kind.type?, Keyword.type?]
  | symbol sign => cases sign <;> simp [Kind.type?, and_comm]
  | identifier name => simp [Kind.type?, and_assoc]
  | _ => simp [Kind.type?]

/-- A statement is of the sort that its first token says. -/
theorem gives_statementBody {statement : Parse Statement} {expression : Parse Expression}
    {result : Statement} :
    (statementBody statement expression).Gives state result behind ↔
      (∃ ty declared, state.current.kind.type? = some ty ∧
        (declaration ty expression).Gives state declared behind ∧
        .declaration declared = result) ∨
      (∃ name stored between, state.current.kind = .identifier name ∧
        (assignment expression).Gives state stored between ∧
        between.current.kind = .symbol .semicolon ∧ between.advance = behind ∧
        .assignment stored = result) ∨
      (state.current.kind = .keyword .ifWord ∧
        (conditional statement expression).Gives state result behind) ∨
      (state.current.kind = .keyword .whileWord ∧
        (whileLoop statement expression).Gives state result behind) ∨
      (state.current.kind = .keyword .forWord ∧
        (forLoop statement expression).Gives state result behind) ∨
      (state.current.kind = .keyword .printWord ∧
        (print expression).Gives state result behind) ∨
      (state.current.kind = .symbol .leftBrace ∧
        (block statement).Gives state result behind) ∨
      (state.current.kind = .symbol .semicolon ∧ state.advance = behind ∧
        .empty state.current.span = result) := by
  simp only [statementBody, gives_bind, gives_current, and_assoc, exists_and_left,
    exists_eq_left']
  cases state.current.kind with
  | keyword word => cases word <;> simp [Kind.type?, Keyword.type?]
  | symbol sign => cases sign <;> simp [Kind.type?, and_assoc]
  | identifier name => simp [Kind.type?, and_assoc]
  | _ => simp [Kind.type?]

/-! ### What is read is derived -/

/-- On a level, the step reads nothing but what the rule derives. -/
def ReadsAs (rule : Nat → List Kind → α → Prop) (step : Parse α) : Prop :=
  ∀ {state value behind level}, state.Ready → state.depth = level →
    step.Gives state value behind → ∃ word, rule level word value ∧ Reads word state behind

def ReadsExpressions : Parse Expression → Prop :=
  ReadsAs fun level word expression => Complete .kept level word expression.unplaced

def ReadsDeclaration (ty : Ty) (step : Parse Declaration) : Prop :=
  ∀ {state value behind level}, state.Ready → state.depth = level →
    state.current.kind.type? = some ty → step.Gives state value behind →
    ∃ word, Declares .kept level word value.unplaced ∧ Reads word state behind

/-- The later state stands behind a statement of the level, and not in front of an `else` that
could belong to it. -/
def ReachedStatement (level : Nat) (state : ParseState) (statement : Statement)
    (later : ParseState) : Prop :=
  ∃ word, States .kept level word statement.unplaced ∧ Reads word state later ∧
    (statement.endsOpen = true → later.current.kind ≠ .keyword .elseWord)

def ReadsStatements (step : Parse Statement) : Prop :=
  ∀ {state statement behind level}, state.Ready → state.depth = level →
    step.Gives state statement behind → ReachedStatement (level + 1) state statement behind

theorem identifier_reads {name : Identifier} (ready : state.Ready)
    (given : identifier.Gives state name behind) :
    Reads [.identifier name.name] state behind := by
  obtain ⟨text, seen, rfl, rfl⟩ := gives_identifier.mp given
  exact ready.reads_advance seen (by simp)

theorem declaration_reads {expression : Parse Expression} (ty : Ty)
    (expressionReads : ReadsExpressions expression) :
    ReadsDeclaration ty (declaration ty expression) := by
  intro state declared behind level ready same named given
  obtain ⟨keyword, seen, names⟩ := Token.Kind.type?_eq_some_iff.mp named
  obtain ⟨name, between, nameGiven, rest⟩ := gives_declaration.mp given
  have typeReads := ready.reads_advance seen (by simp)
  have nameReads := typeReads.cons (identifier_reads (ready.behind typeReads) nameGiven)
  have betweenReady := ready.behind nameReads
  split at rest
  · rename_i assigned
    obtain ⟨value, last, valueGiven, closed, rfl, rfl⟩ := rest
    have signReads := betweenReady.reads_advance assigned (by simp)
    have valueReady := betweenReady.behind signReads
    obtain ⟨word, derived, reads⟩ :=
      expressionReads valueReady ((signReads.depth.trans nameReads.depth).trans same) valueGiven
    have closeReads := (valueReady.behind reads).reads_advance closed (by simp)
    refine ⟨_, .initialized name.name names derived, ?_⟩
    exact nameReads.trans (signReads.cons (reads.trans closeReads))
  · obtain ⟨closed, rfl, rfl⟩ := rest
    have closeReads := betweenReady.reads_advance closed (by simp)
    exact ⟨_, .plain name.name names, nameReads.trans closeReads⟩

theorem assignment_reads {expression : Parse Expression}
    (expressionReads : ReadsExpressions expression) :
    ReadsAs (fun level word stored => Stores .kept level word stored.unplaced)
      (assignment expression) := by
  intro state stored behind level ready same given
  obtain ⟨target, between, op, value, targetGiven, found, valueGiven, rfl⟩ :=
    gives_assignment.mp given
  have targetReads := identifier_reads ready targetGiven
  have betweenReady := ready.behind targetReads
  have signReads :=
    betweenReady.reads_advance (Token.Kind.assignOp?_eq_some_iff.mp found) (by simp)
  obtain ⟨word, derived, reads⟩ := expressionReads (betweenReady.behind signReads)
    ((signReads.depth.trans targetReads.depth).trans same) valueGiven
  exact ⟨_, .store target.name op derived, targetReads.cons (signReads.cons reads)⟩

theorem parenthesized_reads {expression : Parse Expression}
    (expressionReads : ReadsExpressions expression) {value : Expression} {level : Nat}
    (ready : state.Ready) (same : state.depth = level)
    (given : (parenthesized expression).Gives state value behind) :
    ∃ word, Complete .kept level word value.unplaced ∧
      Reads (.symbol .leftParen :: (word ++ [.symbol .rightParen])) state behind := by
  obtain ⟨opened, inside, valueGiven, closed, rfl⟩ := gives_parenthesized.mp given
  have openReads := ready.reads_advance opened (by simp)
  have openReady := ready.behind openReads
  obtain ⟨word, derived, reads⟩ :=
    expressionReads openReady (openReads.depth.trans same) valueGiven
  have closeReads := (openReady.behind reads).reads_advance closed (by simp)
  exact ⟨word, derived, openReads.cons (reads.trans closeReads)⟩

theorem header_reads {expression : Parse Expression}
    (expressionReads : ReadsExpressions expression) {keyword : Keyword} {value : Expression}
    {level : Nat} (ready : state.Ready) (same : state.depth = level)
    (seen : state.current.kind = .keyword keyword)
    (given : (parenthesized expression).Gives state.advance value behind) :
    ∃ word, Complete .kept level word value.unplaced ∧
      Reads (.keyword keyword :: .symbol .leftParen :: (word ++ [.symbol .rightParen]))
        state behind := by
  have wordReads := ready.reads_advance seen (by simp)
  obtain ⟨word, derived, reads⟩ := parenthesized_reads expressionReads (ready.behind wordReads)
    (wordReads.depth.trans same) given
  exact ⟨word, derived, wordReads.cons reads⟩

theorem loopStart_reads {expression : Parse Expression}
    (expressionReads : ReadsExpressions expression) :
    ReadsAs (fun level word start => Starts .kept level word start.unplaced)
      (loopStart expression) := by
  intro state start behind level ready same given
  rcases gives_loopStart.mp given with
    ⟨ty, declared, named, declaredGiven, rfl⟩ | ⟨seen, rfl, rfl⟩ |
    ⟨_, stored, between, _, storedGiven, closed, rfl, rfl⟩
  · obtain ⟨word, derived, reads⟩ :=
      declaration_reads ty expressionReads ready same named declaredGiven
    exact ⟨word, .declaration derived, reads⟩
  · exact ⟨_, .nothing, ready.reads_advance seen (by simp)⟩
  · obtain ⟨word, derived, reads⟩ := assignment_reads expressionReads ready same storedGiven
    have closeReads := (ready.behind reads).reads_advance closed (by simp)
    exact ⟨_, .assignment derived, reads.trans closeReads⟩

theorem unlessAt_reads {step : Parse α} {rule : Nat → List Kind → α → Prop} {symbol : Symbol}
    (stepReads : ReadsAs rule step) :
    ReadsAs (fun level => Perhaps (rule level)) (unlessAt symbol step) := by
  intro state result behind level ready same given
  have split := gives_unlessAt.mp given
  split at split
  · obtain ⟨rfl, rfl⟩ := split
    exact ⟨[], .absent, ready.reads_nil⟩
  · obtain ⟨value, valueGiven, rfl⟩ := split
    obtain ⟨word, derived, reads⟩ := stepReads ready same valueGiven
    exact ⟨word, .present derived, reads⟩

theorem perhaps_map {α β : Type} {rule : List Kind → β → Prop}
    {function : α → β} {word : List Kind} {tree? : Option α}
    (derived : Perhaps (fun word tree => rule word (function tree)) word tree?) :
    Perhaps rule word (tree?.map function) := by
  cases derived with
  | absent => exact .absent
  | present derived => exact .present derived

section Bodies

variable {statement : Parse Statement} {expression : Parse Expression} {result : Statement}
  {level : Nat}

theorem conditional_reads (statementReads : ReadsStatements statement)
    (expressionReads : ReadsExpressions expression) (ready : state.Ready)
    (same : state.depth = level) (seen : state.current.kind = .keyword .ifWord)
    (given : (conditional statement expression).Gives state result behind) :
    ReachedStatement level state result behind := by
  obtain ⟨condition, between, conditionGiven, branch, last, branchGiven, rest⟩ :=
    gives_conditional.mp given
  obtain ⟨test, tested, headReads⟩ := header_reads expressionReads ready same seen conditionGiven
  obtain ⟨branchWord, derived, branchReads, closed⟩ :=
    statementReads (ready.behind headReads) (headReads.depth.trans same) branchGiven
  have fits := same ▸ ready.depth
  have ifReads := headReads.trans branchReads
  split at rest
  · rename_i followed
    obtain ⟨otherwise, otherGiven, rfl⟩ := rest
    have lastReady := ready.behind ifReads
    have elseReads := lastReady.reads_advance followed (by simp)
    obtain ⟨otherWord, otherDerived, otherReads, otherClosed⟩ :=
      statementReads (lastReady.behind elseReads)
        ((elseReads.depth.trans ifReads.depth).trans same) otherGiven
    have branchClosed : branch.unplaced.endsOpen = false := by
      rw [Statement.endsOpen_unplaced]
      cases still : branch.endsOpen with
      | false => rfl
      | true => exact absurd followed (closed still)
    refine ⟨_, .ifElse fits tested derived branchClosed otherDerived, ?_, otherClosed⟩
    simpa only [List.cons_append, List.nil_append, List.append_assoc] using
      ifReads.trans (elseReads.cons otherReads)
  · rename_i ended
    obtain ⟨rfl, rfl⟩ := rest
    refine ⟨_, .ifThen fits tested derived, ?_, fun _ => ended⟩
    simpa only [List.cons_append, List.nil_append, List.append_assoc] using ifReads

theorem whileLoop_reads (statementReads : ReadsStatements statement)
    (expressionReads : ReadsExpressions expression) (ready : state.Ready)
    (same : state.depth = level) (seen : state.current.kind = .keyword .whileWord)
    (given : (whileLoop statement expression).Gives state result behind) :
    ReachedStatement level state result behind := by
  obtain ⟨condition, between, body, conditionGiven, bodyGiven, rfl⟩ := gives_whileLoop.mp given
  obtain ⟨test, tested, headReads⟩ := header_reads expressionReads ready same seen conditionGiven
  obtain ⟨word, derived, reads, closed⟩ :=
    statementReads (ready.behind headReads) (headReads.depth.trans same) bodyGiven
  refine ⟨_, .whileLoop (same ▸ ready.depth) tested derived, ?_, closed⟩
  simpa only [List.cons_append, List.nil_append, List.append_assoc] using headReads.trans reads

theorem print_reads (expressionReads : ReadsExpressions expression) (ready : state.Ready)
    (same : state.depth = level) (seen : state.current.kind = .keyword .printWord)
    (given : (print expression).Gives state result behind) :
    ReachedStatement level state result behind := by
  obtain ⟨value, between, valueGiven, closed, rfl, rfl⟩ := gives_print.mp given
  obtain ⟨word, derived, headReads⟩ := header_reads expressionReads ready same seen valueGiven
  have wholeReads := ready.reads_on headReads closed (by simp)
  refine ⟨_, .print (same ▸ ready.depth) derived, ?_, by simp [Statement.endsOpen]⟩
  simpa only [List.cons_append, List.nil_append, List.append_assoc] using wholeReads

theorem forLoop_reads (statementReads : ReadsStatements statement)
    (expressionReads : ReadsExpressions expression) (ready : state.Ready)
    (same : state.depth = level) (seen : state.current.kind = .keyword .forWord)
    (given : (forLoop statement expression).Gives state result behind) :
    ReachedStatement level state result behind := by
  obtain ⟨opened, start, first, condition?, second, update?, third, body, startGiven,
    conditionGiven, separated, updateGiven, closed, bodyGiven, rfl⟩ := gives_forLoop.mp given
  have wordReads := ready.reads_advance seen (by simp)
  have openReads := wordReads.cons ((ready.behind wordReads).reads_advance opened (by simp))
  obtain ⟨startWord, started, startReads⟩ := loopStart_reads expressionReads
    (ready.behind openReads) (openReads.depth.trans same) startGiven
  have firstReads := openReads.trans startReads
  obtain ⟨test, tested, testReads⟩ := unlessAt_reads expressionReads
    (ready.behind firstReads) (firstReads.depth.trans same) conditionGiven
  have secondReads := firstReads.trans testReads
  have separatorReads := ready.reads_on secondReads separated (by simp)
  obtain ⟨step, stepped, stepReads⟩ := unlessAt_reads (assignment_reads expressionReads)
    (ready.behind separatorReads) (separatorReads.depth.trans same) updateGiven
  have thirdReads := separatorReads.trans stepReads
  have headReads := ready.reads_on thirdReads closed (by simp)
  obtain ⟨word, derived, reads, bodyClosed⟩ :=
    statementReads (ready.behind headReads) (headReads.depth.trans same) bodyGiven
  refine ⟨_, .forLoop (same ▸ ready.depth) started (perhaps_map tested) (perhaps_map stepped)
    derived, ?_, bodyClosed⟩
  simpa only [List.cons_append, List.nil_append, List.append_assoc] using headReads.trans reads

theorem repeatWhile_reads {goesOn : Token → Bool} (statementReads : ReadsStatements statement)
    {budget : List Token} {body : List Statement} (ready : state.Ready)
    (same : state.depth = level)
    (given : (repeatWhile goesOn statement budget).Gives state body behind) :
    ∃ word, StatesAll .kept (level + 1) word (Statement.unplacedAll body) ∧
      Reads word state behind := by
  induction budget generalizing state body with
  | nil =>
      obtain ⟨rfl, rfl⟩ := gives_pure.mp given
      exact ⟨[], .nil, ready.reads_nil⟩
  | cons token budget inductionHypothesis =>
      have split := gives_repeatWhile_cons.mp given
      split at split
      · obtain ⟨first, between, others, firstGiven, othersGiven, rfl⟩ := split
        obtain ⟨word, derived, reads, _⟩ := statementReads ready same firstGiven
        obtain ⟨otherWord, othersDerived, otherReads⟩ :=
          inductionHypothesis (ready.behind reads) (reads.depth.trans same) othersGiven
        exact ⟨_, .cons derived othersDerived, reads.trans otherReads⟩
      · obtain ⟨rfl, rfl⟩ := split
        exact ⟨[], .nil, ready.reads_nil⟩

theorem block_reads (statementReads : ReadsStatements statement) (ready : state.Ready)
    (same : state.depth = level) (given : (block statement).Gives state result behind) :
    ReachedStatement level state result behind := by
  obtain ⟨opened, body, between, bodyGiven, closed, rfl, rfl⟩ := gives_block.mp given
  have openReads := ready.reads_advance opened (by simp)
  obtain ⟨word, derived, reads⟩ := repeatWhile_reads statementReads (ready.behind openReads)
    (openReads.depth.trans same) bodyGiven
  have bodyReads := openReads.cons reads
  have closeReads := (ready.behind bodyReads).reads_advance closed (by simp)
  exact ⟨_, .block (same ▸ ready.depth) derived, bodyReads.trans closeReads,
    by simp [Statement.endsOpen]⟩

theorem statementBody_reads (statementReads : ReadsStatements statement)
    (expressionReads : ReadsExpressions expression) (ready : state.Ready)
    (same : state.depth = level)
    (given : (statementBody statement expression).Gives state result behind) :
    ReachedStatement level state result behind := by
  have fits := same ▸ ready.depth
  rcases gives_statementBody.mp given with
    ⟨ty, declared, named, declaredGiven, rfl⟩ |
    ⟨_, stored, between, _, storedGiven, closed, rfl, rfl⟩ |
    ⟨seen, given⟩ | ⟨seen, given⟩ | ⟨seen, given⟩ | ⟨seen, given⟩ | ⟨_, given⟩ |
    ⟨seen, rfl, rfl⟩
  · obtain ⟨word, derived, reads⟩ :=
      declaration_reads ty expressionReads ready same named declaredGiven
    exact ⟨word, .declaration fits derived, reads, by simp [Statement.endsOpen]⟩
  · obtain ⟨word, derived, reads⟩ := assignment_reads expressionReads ready same storedGiven
    have closeReads := (ready.behind reads).reads_advance closed (by simp)
    exact ⟨_, .assignment fits derived, reads.trans closeReads, by simp [Statement.endsOpen]⟩
  · exact conditional_reads statementReads expressionReads ready same seen given
  · exact whileLoop_reads statementReads expressionReads ready same seen given
  · exact forLoop_reads statementReads expressionReads ready same seen given
  · exact print_reads expressionReads ready same seen given
  · exact block_reads statementReads ready same given
  · exact ⟨_, .empty fits, ready.reads_advance seen (by simp), by simp [Statement.endsOpen]⟩

end Bodies

theorem statement_reads (levels : Nat) : ReadsStatements (statement levels) := by
  induction levels with
  | zero =>
      intro state result behind level ready same given
      exact absurd given gives_tooDeep
  | succ levels inductionHypothesis =>
      intro state result behind level ready same given
      obtain ⟨fits, inside, bodyGiven, rfl⟩ := gives_nested.mp given
      obtain ⟨word, derived, reads, closed⟩ :=
        statementBody_reads inductionHypothesis
          (fun ready same given => same ▸ expression_reads ready given) (ready.entered fits)
          (congrArg (· + 1) same) bodyGiven
      exact ⟨word, derived, reads.outwards, closed⟩

end Parse

end StagedAnalysis
