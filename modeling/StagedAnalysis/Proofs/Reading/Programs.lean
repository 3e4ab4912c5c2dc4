import StagedAnalysis.Proofs.Reading.Statements
import StagedAnalysis.Proofs.Words
/-!
Reading programs is reading by the grammar.

The module before this one shows that statements are read only where the grammar derives them.
Here it is shown that every derived statement is read, if no `else` comes next that could belong to
it, and both directions are put together for whole lists of tokens.
-/
namespace StagedAnalysis

open Token (Kind)
open Grammar (Complete Declares Stores Starts Perhaps States StatesAll Derives)
open ParseState (Ready Reads)

namespace Parse

variable {α : Type} {state behind : ParseState} {depth : Nat}

/-! ### What is derived is read -/

/-- On a level, the step reads all that the rule derives, if the kind that comes next is one in
front of which the tree ends. -/
def AcceptsAs (rule : List Kind → α → Prop) (unplaced : α → α) (ends : α → Kind → Prop)
    (depth : Nat) (step : Parse α) : Prop :=
  ∀ {state word suffix tree}, state.Ready → state.depth = depth → rule word tree →
    state.ahead = word ++ suffix → ends tree (suffix.headD .endOfInput) →
    ∃ value behind,
      step.Gives state value behind ∧ unplaced value = tree ∧ Reads word state behind

def AcceptsExpressions (depth : Nat) : Parse Expression → Prop :=
  AcceptsAs (Complete .kept depth) Expression.unplaced (fun _ kind => kind.binaryOp? = none) depth

def AcceptsStatements (depth : Nat) : Parse Statement → Prop :=
  AcceptsAs (States .kept (depth + 1)) Statement.unplaced
    (fun tree kind => tree.endsOpen = true → kind ≠ .keyword .elseWord) depth

theorem identifier_accepts {text : String} {suffix : List Kind} (ready : state.Ready)
    (shape : state.ahead = .identifier text :: suffix) :
    ∃ name, identifier.Gives state name state.advance ∧ name.unplaced = ⟨text, .origin⟩ ∧
      Reads [.identifier text] state state.advance := by
  have seen := ParseState.current_kind_of_ahead shape
  exact ⟨⟨text, state.current.span⟩, gives_identifier.mpr ⟨text, seen, rfl, rfl⟩, rfl,
    ready.reads_advance seen (by simp)⟩

theorem declaration_accepts {expression : Parse Expression}
    (expressionAccepts : AcceptsExpressions depth expression) {word suffix : List Kind}
    {tree : Declaration} (ready : state.Ready) (same : state.depth = depth)
    (derived : Declares .kept depth word tree) (shape : state.ahead = word ++ suffix) :
    state.current.kind.type? = some tree.ty ∧ ∃ declared behind,
      (declaration tree.ty expression).Gives state declared behind ∧
        declared.unplaced = tree ∧ Reads word state behind := by
  cases derived with
  | @plain keyword ty text names =>
      have seen := ParseState.current_kind_of_ahead shape
      have typeReads := ready.reads_advance seen (by simp)
      have typeReady := ready.behind typeReads
      obtain ⟨name, nameGiven, nameSame, nameReads⟩ :=
        identifier_accepts typeReady (typeReads.ahead_eq shape)
      have bothReads := typeReads.cons nameReads
      have closed := ParseState.current_kind_of_ahead (bothReads.ahead_eq shape)
      have declaredReads := ready.reads_on bothReads closed (by simp)
      have given : (declaration ty expression).Gives state _ _ :=
        gives_declaration.mpr ⟨name, _, nameGiven,
          (if_neg (by simp [closed])).mpr ⟨closed, rfl, rfl⟩⟩
      refine ⟨by rw [seen]; exact names, _, _, given, ?_, declaredReads⟩
      simp only [Declaration.unplaced, nameSame, Option.map_none]
  | @initialized keyword ty word value text names derived =>
      have seen := ParseState.current_kind_of_ahead shape
      have typeReads := ready.reads_advance seen (by simp)
      have typeReady := ready.behind typeReads
      obtain ⟨name, nameGiven, nameSame, nameReads⟩ :=
        identifier_accepts typeReady (typeReads.ahead_eq shape)
      have bothReads := typeReads.cons nameReads
      have assigned := ParseState.current_kind_of_ahead (bothReads.ahead_eq shape)
      have headReads := ready.reads_on bothReads assigned (by simp)
      have headShape : _ = word ++ ([.symbol .semicolon] ++ suffix) :=
        (headReads.ahead_eq shape).trans (List.append_assoc _ _ _)
      obtain ⟨value, last, valueGiven, valueSame, valueReads⟩ :=
        expressionAccepts (ready.behind headReads) (headReads.depth.trans same) derived headShape
          rfl
      have wholeReads := headReads.trans valueReads
      have closed := ParseState.current_kind_of_ahead (valueReads.ahead_eq headShape)
      have declaredReads := ready.reads_on wholeReads closed (by simp)
      have given : (declaration ty expression).Gives state _ _ :=
        gives_declaration.mpr ⟨name, _, nameGiven,
          (if_pos assigned).mpr ⟨value, last, valueGiven, closed, rfl, rfl⟩⟩
      refine ⟨by rw [seen]; exact names, _, _, given, ?_, ?_⟩
      · simp only [Declaration.unplaced, nameSame, Option.map_some, valueSame]
      · simpa only [List.cons_append, List.nil_append, List.append_assoc] using declaredReads

theorem assignment_accepts {expression : Parse Expression}
    (expressionAccepts : AcceptsExpressions depth expression) :
    AcceptsAs (Stores .kept depth) Assignment.unplaced (fun _ kind => kind.binaryOp? = none) depth
      (assignment expression) := by
  intro state word suffix tree ready same derived shape ends
  cases derived with
  | store text op derived =>
      obtain ⟨target, targetGiven, targetSame, targetReads⟩ := identifier_accepts ready shape
      have seen := ParseState.current_kind_of_ahead (targetReads.ahead_eq shape)
      have headReads :=
        targetReads.cons ((ready.behind targetReads).reads_advance seen (by simp))
      obtain ⟨value, behind, valueGiven, valueSame, valueReads⟩ :=
        expressionAccepts (ready.behind headReads) (headReads.depth.trans same) derived
          (headReads.ahead_eq shape) ends
      refine ⟨_, behind, gives_assignment.mpr ⟨target, _, op, value, targetGiven,
        Token.Kind.assignOp?_eq_some_iff.mpr seen, valueGiven, rfl⟩, ?_,
        headReads.trans valueReads⟩
      simp only [Assignment.unplaced, targetSame, valueSame]

theorem parenthesized_accepts {expression : Parse Expression}
    (expressionAccepts : AcceptsExpressions depth expression) {word suffix : List Kind}
    {tree : Expression} (ready : state.Ready) (same : state.depth = depth)
    (derived : Complete .kept depth word tree)
    (shape : state.ahead = .symbol .leftParen :: (word ++ .symbol .rightParen :: suffix)) :
    ∃ value behind, (parenthesized expression).Gives state value behind ∧
      value.unplaced = tree ∧
      Reads (.symbol .leftParen :: (word ++ [.symbol .rightParen])) state behind := by
  have opened := ParseState.current_kind_of_ahead shape
  have openReads := ready.reads_advance opened (by simp)
  have openReady := ready.behind openReads
  have openShape := openReads.ahead_eq shape
  obtain ⟨value, inside, given, unplaced, reads⟩ :=
    expressionAccepts openReady (openReads.depth.trans same) derived openShape rfl
  have closed := ParseState.current_kind_of_ahead (reads.ahead_eq openShape)
  have closeReads := (openReady.behind reads).reads_advance closed (by simp)
  exact ⟨value, _, gives_parenthesized.mpr ⟨opened, inside, given, closed, rfl⟩, unplaced,
    openReads.cons (reads.trans closeReads)⟩

theorem header_accepts {expression : Parse Expression}
    (expressionAccepts : AcceptsExpressions depth expression) {keyword : Keyword}
    {word suffix : List Kind} {tree : Expression} (ready : state.Ready)
    (same : state.depth = depth) (derived : Complete .kept depth word tree)
    (shape : state.ahead =
      .keyword keyword :: .symbol .leftParen :: (word ++ .symbol .rightParen :: suffix)) :
    state.current.kind = .keyword keyword ∧ ∃ value behind,
      (parenthesized expression).Gives state.advance value behind ∧ value.unplaced = tree ∧
        Reads (.keyword keyword :: .symbol .leftParen :: (word ++ [.symbol .rightParen]))
          state behind ∧ behind.ahead = suffix := by
  have seen := ParseState.current_kind_of_ahead shape
  have wordReads := ready.reads_advance seen (by simp)
  obtain ⟨value, behind, given, unplaced, reads⟩ :=
    parenthesized_accepts expressionAccepts (ready.behind wordReads)
      (wordReads.depth.trans same) derived (wordReads.ahead_eq shape)
  have headReads := wordReads.cons reads
  exact ⟨seen, value, behind, given, unplaced, headReads,
    headReads.ahead_eq (by simpa using shape)⟩

theorem loopStart_accepts {expression : Parse Expression}
    (expressionAccepts : AcceptsExpressions depth expression) :
    AcceptsAs (Starts .kept depth) LoopStart.unplaced (fun _ _ => True) depth
      (loopStart expression) := by
  intro state word suffix tree ready same derived shape _
  cases derived with
  | nothing =>
      have seen := ParseState.current_kind_of_ahead shape
      exact ⟨_, _, gives_loopStart.mpr (.inr (.inl ⟨seen, rfl, rfl⟩)), rfl,
        ready.reads_advance seen (by simp)⟩
  | declaration derived =>
      obtain ⟨named, declared, behind, given, unplaced, reads⟩ :=
        declaration_accepts expressionAccepts ready same derived shape
      refine ⟨.declaration declared, behind,
        gives_loopStart.mpr (.inl ⟨_, declared, named, given, rfl⟩), ?_, reads⟩
      simp only [LoopStart.unplaced, unplaced]
  | assignment derived =>
      rw [List.append_assoc] at shape
      obtain ⟨name, rest, rfl⟩ := Grammar.stores_head derived
      have seen := ParseState.current_kind_of_ahead shape
      obtain ⟨stored, between, given, unplaced, reads⟩ :=
        assignment_accepts expressionAccepts ready same derived shape rfl
      have closed := ParseState.current_kind_of_ahead (reads.ahead_eq shape)
      have storedReads := ready.reads_on reads closed (by simp)
      refine ⟨.assignment stored, _, gives_loopStart.mpr
        (.inr (.inr ⟨name, stored, between, seen, given, closed, rfl, rfl⟩)), ?_,
        storedReads⟩
      simp only [LoopStart.unplaced, unplaced]

/-- A phrase that may be left out is read up to the symbol that tells whether it is there. -/
theorem unlessAt_accepts {step : Parse α} {rule : List Kind → α → Prop} {unplaced : α → α}
    {symbol : Symbol} (stepAccepts : AcceptsAs rule unplaced (fun _ kind => kind.binaryOp? = none)
      depth step)
    (head : ∀ {word tree}, rule word tree →
      ∃ kind rest, word = kind :: rest ∧ kind ≠ .symbol symbol)
    (separates : (Kind.symbol symbol).binaryOp? = none) :
    AcceptsAs (Perhaps rule) (Option.map unplaced) (fun _ kind => kind = .symbol symbol) depth
      (unlessAt symbol step) := by
  intro state word suffix tree ready same derived shape ends
  cases derived with
  | absent =>
      have seen : state.current.kind = .symbol symbol := by
        rw [ParseState.current_kind ready.closing, shape]
        exact ends
      exact ⟨none, state, gives_unlessAt.mpr ((if_pos seen).mpr ⟨rfl, rfl⟩), rfl,
        ready.reads_nil⟩
  | present derived =>
      obtain ⟨kind, rest, rfl, different⟩ := head derived
      have seen := ParseState.current_kind_of_ahead shape
      obtain ⟨value, behind, given, same, reads⟩ :=
        stepAccepts ready same derived shape (ends ▸ separates)
      refine ⟨some value, behind, gives_unlessAt.mpr ?_, congrArg some same, reads⟩
      rw [if_neg (seen ▸ different)]
      exact ⟨value, given, rfl⟩

section Bodies

variable {statement : Parse Statement} {expression : Parse Expression}
  {test word suffix : List Kind} {condition : Expression} {branch : Statement}

def Delivers (step : Parse Statement) (state : ParseState) (word : List Kind) (tree : Statement) :
    Prop :=
  ∃ result behind,
    step.Gives state result behind ∧ result.unplaced = tree ∧ Reads word state behind

theorem ifThen_accepts (statementAccepts : AcceptsStatements depth statement)
    (expressionAccepts : AcceptsExpressions depth expression) (ready : state.Ready)
    (same : state.depth = depth) (tested : Complete .kept depth test condition)
    (derived : States .kept (depth + 1) word branch)
    (shape : state.ahead =
      .keyword .ifWord :: .symbol .leftParen :: (test ++ .symbol .rightParen :: (word ++ suffix)))
    (ends : suffix.headD .endOfInput ≠ .keyword .elseWord) :
    Delivers (statementBody statement expression) state
      (.keyword .ifWord :: .symbol .leftParen :: (test ++ .symbol .rightParen :: word))
      (.ifThen condition branch .origin) := by
  obtain ⟨seen, value, between, given, unplaced, reads, rest⟩ :=
    header_accepts expressionAccepts ready same tested shape
  have betweenReady := ready.behind reads
  obtain ⟨inner, behind, innerGiven, innerSame, innerReads⟩ :=
    statementAccepts betweenReady (reads.depth.trans same) derived rest fun _ => ends
  have ended : behind.current.kind ≠ .keyword .elseWord := by
    rwa [ParseState.current_kind (betweenReady.behind innerReads).closing,
      innerReads.ahead_eq rest]
  have whole : (conditional statement expression).Gives state _ _ :=
    gives_conditional.mpr ⟨value, between, given, inner, behind, innerGiven,
      (if_neg ended).mpr ⟨rfl, rfl⟩⟩
  refine ⟨_, behind, gives_statementBody.mpr (.inr (.inr (.inl ⟨seen, whole⟩))), ?_, ?_⟩
  · simp only [Statement.unplaced, unplaced, innerSame]
  · simpa only [List.cons_append, List.nil_append, List.append_assoc] using reads.trans innerReads

theorem ifElse_accepts (statementAccepts : AcceptsStatements depth statement)
    (expressionAccepts : AcceptsExpressions depth expression) {other : List Kind}
    {otherwise : Statement} (ready : state.Ready)
    (same : state.depth = depth) (tested : Complete .kept depth test condition)
    (derived : States .kept (depth + 1) word branch) (closed : branch.endsOpen = false)
    (otherDerived : States .kept (depth + 1) other otherwise)
    (shape : state.ahead =
      .keyword .ifWord :: .symbol .leftParen ::
        (test ++ .symbol .rightParen :: (word ++ .keyword .elseWord :: (other ++ suffix))))
    (ends : otherwise.endsOpen = true → suffix.headD .endOfInput ≠ .keyword .elseWord) :
    Delivers (statementBody statement expression) state
      (.keyword .ifWord :: .symbol .leftParen ::
        (test ++ .symbol .rightParen :: (word ++ .keyword .elseWord :: other)))
      (.ifElse condition branch otherwise .origin) := by
  obtain ⟨seen, value, between, given, unplaced, reads, rest⟩ :=
    header_accepts expressionAccepts ready same tested shape
  obtain ⟨inner, last, innerGiven, innerSame, innerReads⟩ :=
    statementAccepts (ready.behind reads) (reads.depth.trans same) derived rest
      fun still => absurd still (by simp [closed])
  have ifReads := reads.trans innerReads
  have followed := ParseState.current_kind_of_ahead (innerReads.ahead_eq rest)
  have headReads := ready.reads_on ifReads followed (by simp)
  have otherShape : _ = other ++ suffix := headReads.ahead_eq (by simpa using shape)
  obtain ⟨second, behind, secondGiven, secondSame, secondReads⟩ :=
    statementAccepts (ready.behind headReads) (headReads.depth.trans same) otherDerived
      otherShape ends
  have whole : (conditional statement expression).Gives state _ _ :=
    gives_conditional.mpr ⟨value, between, given, inner, last, innerGiven,
      (if_pos followed).mpr ⟨second, secondGiven, rfl⟩⟩
  refine ⟨_, behind, gives_statementBody.mpr (.inr (.inr (.inl ⟨seen, whole⟩))), ?_, ?_⟩
  · simp only [Statement.unplaced, unplaced, innerSame, secondSame]
  · simpa only [List.cons_append, List.nil_append, List.append_assoc] using
      headReads.trans secondReads

theorem whileLoop_accepts (statementAccepts : AcceptsStatements depth statement)
    (expressionAccepts : AcceptsExpressions depth expression) (ready : state.Ready)
    (same : state.depth = depth) (tested : Complete .kept depth test condition)
    (derived : States .kept (depth + 1) word branch)
    (shape : state.ahead =
      .keyword .whileWord :: .symbol .leftParen ::
        (test ++ .symbol .rightParen :: (word ++ suffix)))
    (ends : branch.endsOpen = true → suffix.headD .endOfInput ≠ .keyword .elseWord) :
    Delivers (statementBody statement expression) state
      (.keyword .whileWord :: .symbol .leftParen :: (test ++ .symbol .rightParen :: word))
      (.whileLoop condition branch .origin) := by
  obtain ⟨seen, value, between, given, unplaced, reads, rest⟩ :=
    header_accepts expressionAccepts ready same tested shape
  obtain ⟨inner, behind, innerGiven, innerSame, innerReads⟩ :=
    statementAccepts (ready.behind reads) (reads.depth.trans same) derived rest ends
  have whole : (whileLoop statement expression).Gives state _ _ :=
    gives_whileLoop.mpr ⟨value, between, inner, given, innerGiven, rfl⟩
  refine ⟨_, behind, gives_statementBody.mpr (.inr (.inr (.inr (.inl ⟨seen, whole⟩)))), ?_, ?_⟩
  · simp only [Statement.unplaced, unplaced, innerSame]
  · simpa only [List.cons_append, List.nil_append, List.append_assoc] using reads.trans innerReads

theorem print_accepts (expressionAccepts : AcceptsExpressions depth expression)
    (ready : state.Ready) (same : state.depth = depth)
    (derived : Complete .kept depth word condition)
    (shape : state.ahead =
      .keyword .printWord :: .symbol .leftParen ::
        (word ++ .symbol .rightParen :: .symbol .semicolon :: suffix)) :
    Delivers (statementBody statement expression) state
      (.keyword .printWord :: .symbol .leftParen ::
        (word ++ [.symbol .rightParen, .symbol .semicolon]))
      (.print condition .origin) := by
  obtain ⟨seen, value, between, given, unplaced, reads, rest⟩ :=
    header_accepts expressionAccepts ready same derived shape
  have closed := ParseState.current_kind_of_ahead rest
  have printReads := ready.reads_on reads closed (by simp)
  have whole : (print expression).Gives state _ _ :=
    gives_print.mpr ⟨value, between, given, closed, rfl, rfl⟩
  refine ⟨_, _, gives_statementBody.mpr (.inr (.inr (.inr (.inr (.inr (.inl ⟨seen, whole⟩)))))),
    ?_, ?_⟩
  · simp only [Statement.unplaced, unplaced]
  · simpa only [List.cons_append, List.nil_append, List.append_assoc] using printReads

theorem forLoop_accepts (statementAccepts : AcceptsStatements depth statement)
    (expressionAccepts : AcceptsExpressions depth expression) {first step : List Kind}
    {start : LoopStart} {condition? : Option Expression} {update? : Option Assignment}
    (ready : state.Ready) (same : state.depth = depth) (started : Starts .kept depth first start)
    (tested : Perhaps (Complete .kept depth) test condition?)
    (stepped : Perhaps (Stores .kept depth) step update?)
    (derived : States .kept (depth + 1) word branch)
    (shape : state.ahead =
      .keyword .forWord :: .symbol .leftParen ::
        (first ++ (test ++ .symbol .semicolon ::
          (step ++ .symbol .rightParen :: (word ++ suffix)))))
    (ends : branch.endsOpen = true → suffix.headD .endOfInput ≠ .keyword .elseWord) :
    Delivers (statementBody statement expression) state
      (.keyword .forWord :: .symbol .leftParen ::
        (first ++ (test ++ .symbol .semicolon :: (step ++ .symbol .rightParen :: word))))
      (.forLoop start condition? update? branch .origin) := by
  have seen := ParseState.current_kind_of_ahead shape
  have wordReads := ready.reads_advance seen (by simp)
  have opened := ParseState.current_kind_of_ahead (wordReads.ahead_eq shape)
  have openReads := wordReads.cons ((ready.behind wordReads).reads_advance opened (by simp))
  have openShape := openReads.ahead_eq shape
  obtain ⟨begun, second, startGiven, startSame, startReads⟩ :=
    loopStart_accepts expressionAccepts (ready.behind openReads) (openReads.depth.trans same)
      started openShape trivial
  have startedReads := openReads.trans startReads
  have testShape := startReads.ahead_eq openShape
  obtain ⟨value?, third, testGiven, testSame, testReads⟩ :=
    unlessAt_accepts expressionAccepts (fun derived => Grammar.expresses_head derived.derived) rfl
      (ready.behind startedReads) (startedReads.depth.trans same) tested testShape rfl
  have testedReads := startedReads.trans testReads
  have separated := ParseState.current_kind_of_ahead (testReads.ahead_eq testShape)
  have separatorReads := (ready.behind testedReads).reads_advance separated (by simp)
  have stepShape := separatorReads.ahead_eq (testReads.ahead_eq testShape)
  have separatedReads := testedReads.trans separatorReads
  have storesHead : ∀ {word tree}, Stores .kept depth word tree →
      ∃ kind rest, word = kind :: rest ∧ kind ≠ .symbol .rightParen := by
    intro word tree derived
    obtain ⟨name, rest, rfl⟩ := Grammar.stores_head derived
    exact ⟨_, rest, rfl, by simp⟩
  obtain ⟨stored?, fourth, stepGiven, stepSame, stepReads⟩ :=
    unlessAt_accepts (assignment_accepts expressionAccepts) storesHead rfl
      (ready.behind separatedReads) (separatedReads.depth.trans same) stepped stepShape rfl
  have steppedReads := separatedReads.trans stepReads
  have closed := ParseState.current_kind_of_ahead (stepReads.ahead_eq stepShape)
  have closeReads := (ready.behind steppedReads).reads_advance closed (by simp)
  have headReads := steppedReads.trans closeReads
  obtain ⟨body, behind, bodyGiven, bodySame, bodyReads⟩ :=
    statementAccepts (ready.behind headReads) (headReads.depth.trans same) derived
      (closeReads.ahead_eq (stepReads.ahead_eq stepShape)) ends
  have whole : (forLoop statement expression).Gives state _ _ :=
    gives_forLoop.mpr ⟨opened, begun, second, value?, third, stored?, fourth, body, startGiven,
      testGiven, separated, stepGiven, closed, bodyGiven, rfl⟩
  refine ⟨_, behind,
    gives_statementBody.mpr (.inr (.inr (.inr (.inr (.inl ⟨seen, whole⟩))))), ?_, ?_⟩
  · simp only [Statement.unplaced, startSame, testSame, stepSame, bodySame]
  · simpa only [List.cons_append, List.nil_append, List.append_assoc] using
      headReads.trans bodyReads

/-- With as many tokens to spare as are ahead, statements are read up to a token that stops the
repetition. -/
theorem repeatWhile_accepts {goesOn : Token → Bool}
    (statementAccepts : AcceptsStatements depth statement)
    (starts : ∀ token : Token, token.kind.startsStatement = true → goesOn token = true)
    (stops : ∀ token : Token, token.kind = suffix.headD .endOfInput → goesOn token = false)
    (ends : suffix.headD .endOfInput ≠ .keyword .elseWord) {budget : List Token}
    {trees : List Statement} (ready : state.Ready) (same : state.depth = depth)
    (enough : state.ahead.length ≤ budget.length)
    (derived : StatesAll .kept (depth + 1) word trees) (shape : state.ahead = word ++ suffix) :
    ∃ body behind, (repeatWhile goesOn statement budget).Gives state body behind ∧
      Statement.unplacedAll body = trees ∧ Reads word state behind := by
  induction trees generalizing state word budget with
  | nil =>
      cases derived
      have stopped : ¬goesOn state.current = true := by
        rw [stops state.current (by rw [ParseState.current_kind ready.closing, shape]; rfl)]
        exact Bool.false_ne_true
      have given : (repeatWhile goesOn statement budget).Gives state [] state := by
        cases budget with
        | nil => exact gives_pure.mpr ⟨rfl, rfl⟩
        | cons token budget =>
            exact gives_repeatWhile_cons.mpr ((if_neg stopped).mpr ⟨rfl, rfl⟩)
      exact ⟨[], state, given, rfl, ready.reads_nil⟩
  | cons tree trees inductionHypothesis =>
      cases derived with
      | cons derived othersDerived =>
          obtain ⟨kind, rest, rfl, begins⟩ := Grammar.states_head derived
          rw [List.append_assoc] at shape
          have going := starts state.current (ParseState.current_kind_of_ahead shape ▸ begins)
          obtain ⟨first, between, firstGiven, firstSame, firstReads⟩ :=
            statementAccepts ready same derived shape
              fun _ => Grammar.statesAll_follow othersDerived ends
          have shorter := congrArg List.length firstReads.ahead
          simp only [List.cons_append, List.length_cons, List.length_append] at shorter
          cases budget with
          | nil =>
              rw [List.length_nil] at enough
              omega
          | cons token budget =>
              rw [List.length_cons] at enough
              obtain ⟨others, behind, othersGiven, othersSame, othersReads⟩ :=
                @inductionHypothesis between _ budget (ready.behind firstReads)
                  (firstReads.depth.trans same) (by omega) othersDerived
                  (firstReads.ahead_eq shape)
              refine ⟨first :: others, behind, gives_repeatWhile_cons.mpr ((if_pos going).mpr
                ⟨first, between, others, firstGiven, othersGiven, rfl⟩), ?_,
                firstReads.trans othersReads⟩
              rw [Statement.unplacedAll, firstSame, othersSame]

theorem block_accepts (statementAccepts : AcceptsStatements depth statement)
    {body : List Statement} (ready : state.Ready) (same : state.depth = depth)
    (derived : StatesAll .kept (depth + 1) word body)
    (shape : state.ahead = .symbol .leftBrace :: (word ++ .symbol .rightBrace :: suffix)) :
    Delivers (statementBody statement expression) state
      (.symbol .leftBrace :: (word ++ [.symbol .rightBrace])) (.block body .origin) := by
  have opened := ParseState.current_kind_of_ahead shape
  have openReads := ready.reads_advance opened (by simp)
  have openShape := openReads.ahead_eq shape
  have starts (token : Token) (begins : token.kind.startsStatement = true) :
      (!(token.kind == .symbol .rightBrace || token.isEnd)) = true := by
    cases kind : token.kind <;> simp_all [Token.isEnd, Kind.startsStatement]
    rcases begins with rfl | rfl <;> decide
  have stops (token : Token)
      (closes : token.kind = (Kind.symbol .rightBrace :: suffix).headD .endOfInput) :
      (!(token.kind == .symbol .rightBrace || token.isEnd)) = false := by
    simp [show token.kind = .symbol .rightBrace from closes]
  obtain ⟨inner, between, innerGiven, innerSame, innerReads⟩ :=
    repeatWhile_accepts statementAccepts starts stops (by simp) (ready.behind openReads)
      (openReads.depth.trans same) state.advance.ahead_length_le derived openShape
  have bodyReads := openReads.cons innerReads
  have closed := ParseState.current_kind_of_ahead (innerReads.ahead_eq openShape)
  have blockReads := ready.reads_on bodyReads closed (by simp)
  have whole : (block statement).Gives state _ _ :=
    gives_block.mpr ⟨opened, inner, between, gives_many.mpr innerGiven, closed, rfl, rfl⟩
  refine ⟨_, _, gives_statementBody.mpr
    (.inr (.inr (.inr (.inr (.inr (.inr (.inl ⟨opened, whole⟩))))))), ?_,
    blockReads⟩
  simp only [Statement.unplaced, innerSame]

theorem statementBody_accepts (statementAccepts : AcceptsStatements depth statement)
    (expressionAccepts : AcceptsExpressions depth expression) :
    AcceptsAs (States .kept depth) Statement.unplaced
      (fun tree kind => tree.endsOpen = true → kind ≠ .keyword .elseWord) depth
      (statementBody statement expression) := by
  intro state word suffix tree ready same derived shape ends
  cases derived with
  | declaration fits derived =>
      obtain ⟨named, declared, behind, given, unplaced, reads⟩ :=
        declaration_accepts expressionAccepts ready same derived shape
      refine ⟨.declaration declared, behind,
        gives_statementBody.mpr (.inl ⟨_, declared, named, given, rfl⟩), ?_, reads⟩
      simp only [Statement.unplaced, unplaced]
  | assignment fits derived =>
      rw [List.append_assoc] at shape
      obtain ⟨name, rest, rfl⟩ := Grammar.stores_head derived
      have seen := ParseState.current_kind_of_ahead shape
      obtain ⟨stored, between, given, unplaced, reads⟩ :=
        assignment_accepts expressionAccepts ready same derived shape rfl
      have closed := ParseState.current_kind_of_ahead (reads.ahead_eq shape)
      have storedReads := ready.reads_on reads closed (by simp)
      refine ⟨.assignment stored, _, gives_statementBody.mpr
        (.inr (.inl ⟨name, stored, between, seen, given, closed, rfl, rfl⟩)), ?_,
        storedReads⟩
      simp only [Statement.unplaced, unplaced]
  | ifThen fits tested derived =>
      exact ifThen_accepts statementAccepts expressionAccepts ready same tested derived
        (by simpa using shape) (ends rfl)
  | ifElse fits tested derived closed otherDerived =>
      exact ifElse_accepts statementAccepts expressionAccepts ready same tested derived closed
        otherDerived (by simpa using shape) ends
  | whileLoop fits tested derived =>
      exact whileLoop_accepts statementAccepts expressionAccepts ready same tested derived
        (by simpa using shape) ends
  | forLoop fits started tested stepped derived =>
      exact forLoop_accepts statementAccepts expressionAccepts ready same started tested stepped
        derived (by simpa using shape) ends
  | print fits derived =>
      exact print_accepts expressionAccepts ready same derived (by simpa using shape)
  | block fits derived =>
      exact block_accepts statementAccepts ready same derived (by simpa using shape)
  | empty fits =>
      have seen := ParseState.current_kind_of_ahead shape
      exact ⟨_, _, gives_statementBody.mpr
        (.inr (.inr (.inr (.inr (.inr (.inr (.inr ⟨seen, rfl, rfl⟩))))))), rfl,
        ready.reads_advance seen (by simp)⟩

end Bodies

theorem statement_accepts (levels : Nat) {depth : Nat} (enough : maxDepth ≤ levels + depth) :
    AcceptsStatements depth (statement levels) := by
  -- on the levels that are left to go down: what the depth gains, they lose
  induction levels generalizing depth with
  | zero =>
      intro state word suffix tree ready same derived shape ends
      have fits : depth + 1 ≤ maxDepth := Grammar.states_level derived
      omega
  | succ levels inductionHypothesis =>
      intro state word suffix tree ready same derived shape ends
      have fits : depth + 1 ≤ maxDepth := Grammar.states_level derived
      have expressionAccepts : AcceptsExpressions (depth + 1) (Parse.expression levels) := by
        intro state word suffix tree ready same derived shape ends
        exact expression_accepts ready (by omega) (same ▸ derived) shape ends
      obtain ⟨result, inside, given, unplaced, reads⟩ :=
        statementBody_accepts (inductionHypothesis (by omega)) expressionAccepts
          (ready.entered (by omega)) (congrArg (· + 1) same) derived shape ends
      exact ⟨result, inside.leave 1, gives_nested.mpr ⟨by omega, inside, given, rfl⟩, unplaced,
        reads.outwards⟩

/-! ### Programs -/

theorem gives_outerStatement {result : Statement} :
    outerStatement.Gives state result behind ↔
      state.current.kind.startsStatement = true ∧
        (statement maxDepth).Gives state result behind := by
  simp only [outerStatement, gives_bind, gives_current, gives_ite, and_assoc, exists_and_left,
    exists_eq_left']
  split <;> simp_all

theorem outerStatement_reads : ReadsStatements outerStatement := by
  intro state result behind level ready same given
  exact statement_reads maxDepth ready same (gives_outerStatement.mp given).2

theorem outerStatement_accepts : AcceptsStatements 0 outerStatement := by
  intro state word suffix tree ready same derived shape ends
  obtain ⟨kind, rest, rfl, starts⟩ := Grammar.states_head derived
  have seen := ParseState.current_kind_of_ahead shape
  obtain ⟨result, behind, given, unplaced, reads⟩ :=
    statement_accepts maxDepth (Nat.le_add_right _ _) ready same derived shape ends
  exact ⟨result, behind, gives_outerStatement.mpr ⟨seen ▸ starts, given⟩, unplaced, reads⟩

theorem repeatWhile_stops {goesOn : Token → Bool} {statement : Parse Statement}
    (statementReads : ReadsStatements statement) {budget : List Token} {body : List Statement}
    (ready : state.Ready) (enough : state.ahead.length ≤ budget.length)
    (given : (repeatWhile goesOn statement budget).Gives state body behind) :
    goesOn behind.current = false ∨ behind.ahead = [] := by
  -- every statement takes a token, so the budget stays as long as what is ahead
  induction budget generalizing state body with
  | nil =>
      obtain ⟨_, rfl⟩ := gives_pure.mp given
      exact .inr (List.eq_nil_of_length_eq_zero (Nat.le_zero.mp enough))
  | cons token budget inductionHypothesis =>
      have split := gives_repeatWhile_cons.mp given
      split at split
      · obtain ⟨first, between, others, firstGiven, othersGiven, _⟩ := split
        obtain ⟨word, derived, reads, _⟩ := statementReads ready rfl firstGiven
        obtain ⟨kind, rest, rfl, _⟩ := Grammar.states_head derived
        have shorter := congrArg List.length reads.ahead
        simp only [List.cons_append, List.length_cons, List.length_append] at shorter
        rw [List.length_cons] at enough
        exact inductionHypothesis (ready.behind reads) (by omega) othersGiven
      · rename_i stopped
        obtain ⟨_, rfl⟩ := split
        exact .inl (by simpa using stopped)

theorem program_reads {result : Program} (ready : state.Ready) (outermost : state.depth = 0)
    (given : Parse.program.Gives state result behind) :
    Derives .kept state.ahead result.unplaced := by
  obtain ⟨body, bodyGiven, rfl⟩ := gives_map.mp given
  obtain ⟨word, derived, reads⟩ :=
    repeatWhile_reads outerStatement_reads ready outermost bodyGiven
  have ended : behind.ahead = [] := by
    rcases repeatWhile_stops outerStatement_reads ready state.ahead_length_le bodyGiven with
      stopped | ended
    · have stoppedAtEnd : behind.isAtEnd = true := by
        rw [ParseState.isAtEnd]
        simpa using stopped
      exact (ParseState.ahead_eq_nil_iff (ready.behind reads).closing).mpr stoppedAtEnd
    · exact ended
  rw [reads.ahead, ended, List.append_nil]
  exact derived

theorem program_accepts {tree : Program} (ready : state.Ready) (outermost : state.depth = 0)
    (derived : Derives .kept state.ahead tree) :
    ∃ result behind, Parse.program.Gives state result behind ∧ result.unplaced = tree := by
  have starts (token : Token) (begins : token.kind.startsStatement = true) :
      (!token.isEnd) = true := by
    cases kind : token.kind <;> simp_all [Token.isEnd, Kind.startsStatement]
  have stops (token : Token) (ended : token.kind = ([] : List Kind).headD .endOfInput) :
      (!token.isEnd) = false := by
    simp [Token.isEnd, show token.kind = .endOfInput from ended]
  obtain ⟨body, behind, given, unplaced, _⟩ :=
    repeatWhile_accepts outerStatement_accepts starts stops (by simp) ready outermost
      state.ahead_length_le derived (List.append_nil _).symm
  refine ⟨⟨body⟩, behind, gives_map.mpr ⟨body, given, rfl⟩, ?_⟩
  rw [Program.unplaced, unplaced]

end Parse

theorem Program.ofTokens_eq_ok_iff {tokens : List Token} {program : Program} :
    Program.ofTokens tokens = .ok program ↔
      ∃ behind, Parse.program.Gives (.ofTokens tokens) program behind := by
  unfold Program.ofTokens ParseState.program Parse.Gives EStateM.run
  split <;> simp_all

/-- Reading decides the grammar: a list of tokens is read as a program if and only if the kinds of
the tokens in front of the end of the input are a word of the grammar within the limits, and the
program is, without ranges, the tree that the word stands for. -/
theorem Program.ofTokens_ok_iff_derives (tokens : List Token) (tree : Program) :
    Derives .kept ((tokens.takeWhile (!·.isEnd)).map (·.kind)) tree ↔
      ∃ program, Program.ofTokens tokens = .ok program ∧ program.unplaced = tree := by
  have ready := ParseState.ofTokens_ready tokens
  rw [← ParseState.ahead_ofTokens]
  constructor
  · intro derived
    obtain ⟨program, behind, given, unplaced⟩ := Parse.program_accepts ready rfl derived
    exact ⟨program, ofTokens_eq_ok_iff.mpr ⟨behind, given⟩, unplaced⟩
  · rintro ⟨program, parsed, rfl⟩
    obtain ⟨behind, given⟩ := ofTokens_eq_ok_iff.mp parsed
    exact Parse.program_reads ready rfl given

end StagedAnalysis
