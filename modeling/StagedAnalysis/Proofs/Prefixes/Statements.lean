import StagedAnalysis.Proofs.Prefixes.Expressions
import StagedAnalysis.Proofs.Prefixes.Forms
/-!
Statements are read with one token of foresight.

The first token tells the form of a statement; the rest of the form is read part by part. The optional
parts are the places where a reader can go wrong by one token: the first value of a declaration, the
`else` of a conditional, the empty parts of the header of a counting loop, and the end of a block.
-/
namespace StagedAnalysis

open Token (Kind)
open Phrases
open Grammar

namespace Grammar

variable {kind : Kind}

/-! ### What can come first, and what can come behind -/

theorem opens_names (name : String) : names.Opens (.identifier name) :=
  ⟨[], .endOfInput, _, ⟨name, rfl⟩, rfl⟩

theorem opens_statements : statements.Opens (.symbol .semicolon) :=
  ⟨[], .endOfInput, @statement_of_form _ _ .empty rfl⟩

theorem statements_suits (differs : kind ≠ .keyword .elseWord) : statements.Suits kind := by
  rintro word behind ⟨limits, level, tree, derived, _⟩
  exact ⟨limits, level, tree, derived, fun _ => differs⟩

theorem meets_semicolon (phrase : Phrase) : Meets (expressions phrase) (only (.symbol .semicolon)) :=
  meets_of_opens (opens_only _) (ends_suits rfl)

theorem meets_value : Meets (oneOf fun kind => ∃ op, kind.assignOp? = some op)
    (expressions .expression) :=
  meets_of_opens (opens_expressions _) (suits_oneOf _ _)

theorem opens_assigned : ((oneOf fun kind => ∃ op, kind.assignOp? = some op).followedBy
    (expressions .expression)).Opens (.symbol .assign) :=
  Opens.followedBy ⟨[], .endOfInput, .symbol .assign, ⟨.set, rfl⟩, rfl⟩ meets_value

theorem opens_stores (name : String) : stores.Opens (.identifier name) :=
  (opens_names name).followedBy (meets_of_opens opens_assigned (suits_oneOf _ _))

theorem stores_suits (none : kind.binaryOp? = none) : stores.Suits kind := by
  intro word behind stands
  obtain ⟨tree, roomy⟩ := stores_roomy stands
  obtain ⟨limits, level, derived⟩ := roomy.holds
  exact derived.stands none

theorem loopStarts_suits (kind : Kind) : loopStarts.Suits kind :=
  fun _ _ stands => loopStarts_iff.mpr (loopStarts_iff.mp stands)

theorem perhaps_suits {symbol : Symbol} {phrases : Phrases}
    (suits : phrases.Suits (.symbol symbol)) : (perhaps symbol phrases).Suits (.symbol symbol) := by
  rintro word behind (⟨rfl, _⟩ | stands)
  · exact .inl ⟨rfl, rfl⟩
  · exact .inr (suits _ _ stands)

theorem meets_otherwise : Meets statements otherwise :=
  ⟨[], .endOfInput, .inr ⟨rfl, by simp⟩, statements_suits (by simp)⟩

theorem meets_branch : Meets parentheses (statements.followedBy otherwise) :=
  meets_of_opens (opens_statements.followedBy meets_otherwise) (parentheses_suits _)

theorem meets_body : Meets parentheses statements :=
  meets_of_opens opens_statements (parentheses_suits _)

theorem meets_printed : Meets parentheses (only (.symbol .semicolon)) :=
  meets_of_opens (opens_only _) (parentheses_suits _)

theorem meets_stored : Meets stores (only (.symbol .semicolon)) :=
  meets_of_opens (opens_only _) (stores_suits rfl)

theorem meets_update : Meets (perhaps .rightParen stores)
    ((only (.symbol .rightParen)).followedBy statements) :=
  meets_of_opens ((opens_only _).followedBy (meets_only _ opens_statements))
    (perhaps_suits (stores_suits rfl))

theorem meets_condition : Meets (perhaps .semicolon (expressions .expression))
    ((only (.symbol .semicolon)).followedBy ((perhaps .rightParen stores).followedBy
      ((only (.symbol .rightParen)).followedBy statements))) := by
  obtain ⟨word, behind, stands⟩ := opens_stores "name"
  have opens : (perhaps .rightParen stores).Opens (.identifier "name") := ⟨word, behind, .inr stands⟩
  exact meets_of_opens ((opens_only _).followedBy (meets_only _ (opens.followedBy meets_update)))
    (perhaps_suits (ends_suits rfl))

/-- Behind the start of a counting loop its condition comes. -/
theorem meets_header : Meets loopStarts
    ((perhaps .semicolon (expressions .expression)).followedBy ((only (.symbol .semicolon)).followedBy
      ((perhaps .rightParen stores).followedBy
        ((only (.symbol .rightParen)).followedBy statements)))) := by
  obtain ⟨word, behind, stands⟩ := opens_expressions .expression
  have opens : (perhaps .semicolon (expressions .expression)).Opens (.keyword .trueWord) :=
    ⟨word, behind, .inr stands⟩
  exact meets_of_opens (opens.followedBy meets_condition) (loopStarts_suits _)

theorem meets_start : Meets (only (.symbol .leftParen)) (loopStarts.followedBy
    ((perhaps .semicolon (expressions .expression)).followedBy ((only (.symbol .semicolon)).followedBy
      ((perhaps .rightParen stores).followedBy
        ((only (.symbol .rightParen)).followedBy statements))))) := by
  have opens : loopStarts.Opens (.symbol .semicolon) := ⟨[], .endOfInput, .inl rfl⟩
  exact meets_only _ (opens.followedBy meets_header)

/-! ### Rows of statements -/

theorem statements_begin {closes : Kind → Prop}
    (differs : ∀ kind, closes kind → kind.startsStatement = false) :
    statements.Begins (¬closes ·) := by
  rintro word behind ⟨limits, level, tree, derived, _⟩ closed
  obtain ⟨kind, rest, rfl, starts⟩ := states_head derived
  have ends : kind.startsStatement = false := differs kind closed
  rw [starts] at ends
  cases ends

theorem statements_nonempty (behind : Kind) : ¬statements [] behind := by
  rintro ⟨limits, level, tree, derived, _⟩
  obtain ⟨kind, rest, same, _⟩ := states_head derived
  cases same

theorem meets_statements {closes : Kind → Prop} (closed : closes kind)
    (differs : kind ≠ .keyword .elseWord) : Meets statements (Many statements closes) :=
  ⟨[], kind, .nil closed, statements_suits differs⟩

theorem endsBlock_starts (kind : Kind) (ends : EndsBlock kind) : kind.startsStatement = false := by
  rcases ends with rfl | rfl <;> rfl

theorem meets_blockEnd : Meets (Many statements EndsBlock) (only (.symbol .rightBrace)) := by
  refine meets_of_opens (opens_only _) fun word behind stands => ?_
  obtain ⟨limits, level, trees, derived⟩ := statesAll_of_many stands
  exact many_of_statesAll (.inl rfl) (by simp) derived

theorem opens_block : (Many statements EndsBlock).Opens (.symbol .semicolon) := by
  obtain ⟨word, behind, stands⟩ := opens_statements
  have first : statements (.symbol .semicolon :: word) .endOfInput :=
    statements_suits (by simp) _ _ stands
  exact ⟨word, .endOfInput, .single first (.inr rfl)⟩

/-- Every kind that a form is chosen by can be gone on with. -/
theorem opens_form {form : Form} (opens : Form.of? kind = some form) : form.phrases.Opens kind := by
  cases kind with
  | keyword word =>
      cases word with
      | ifWord =>
          cases opens
          exact (opens_only _).followedBy (meets_only _ (opens_parentheses.followedBy meets_branch))
      | whileWord =>
          cases opens
          exact (opens_only _).followedBy (meets_only _ (opens_parentheses.followedBy meets_body))
      | forWord =>
          cases opens
          exact (opens_only _).followedBy (meets_only _ ((opens_only _).followedBy meets_start))
      | printWord =>
          cases opens
          exact (opens_only _).followedBy (meets_only _ (opens_parentheses.followedBy meets_printed))
      | intWord | floatWord | boolWord | stringWord =>
          cases opens
          exact ⟨_, .endOfInput, declarations_iff.mpr ⟨⟨0, 0⟩, 0, _, .plain "name" rfl⟩⟩
      | elseWord | trueWord | falseWord => cases opens
  | identifier name =>
      cases opens
      exact (opens_stores name).followedBy meets_stored
  | symbol sign =>
      cases sign with
      | leftBrace =>
          cases opens
          exact (opens_only _).followedBy (meets_only _ (opens_block.followedBy meets_blockEnd))
      | semicolon =>
          cases opens
          exact opens_only _
      | _ => cases opens
  | _ => cases opens

/-- Every kind that may start a statement begins one. -/
theorem opens_of_startsStatement (starts : kind.startsStatement = true) : statements.Opens kind := by
  rw [← Form.of?_isSome] at starts
  obtain ⟨form, opens⟩ := Option.isSome_iff_exists.mp starts
  obtain ⟨word, behind, stands⟩ := opens_form opens
  exact ⟨word, behind, statement_of_form stands⟩

end Grammar

namespace Parse

theorem identifier_foresees : Foresees names identifier := by
  intro state closed
  refine predicts_current ?_
  split
  · rename_i name seen
    have taken := (predicts_advance closed seen (by simp)).bind_quiet fun _ =>
      quiet_pure (⟨name, state.current.span⟩ : Identifier)
    rw [← seen] at taken
    exact taken.of_agree (agree_oneOf ⟨name, seen⟩)
  · rename_i differs
    refine predicts_throw rfl (refuses_nil [.identifier "name"] .endOfInput ⟨_, ⟨_, rfl⟩, rfl⟩ ?_)
    intro word behind stands isNext
    obtain ⟨name, same⟩ := begins_oneOf _ word behind stands
    exact differs name (isNext.symm.trans same)

section Bodies

variable {statement : Parse Statement} {expression : Parse Expression} {state : ParseState}

theorem declaration_predicts (expressionForesees : Foresees (expressions .expression) expression)
    (closed : state.closing.isEnd = true) {ty : Ty} (names : state.current.kind.type? = some ty) :
    Predicts declarations (declaration ty expression) state := by
  have goesOn : state.current.kind ≠ .endOfInput := by
    intro ended
    rw [ended] at names
    cases names
  have taken : Predicts (only state.current.kind) advance state := predicts_advance closed rfl goesOn
  have opensEnd : (((only (.symbol .assign)).followedBy
      ((expressions .expression).followedBy (only (.symbol .semicolon)))).or
        (only (.symbol .semicolon))).Opens (.symbol .semicolon) :=
    ⟨[], .endOfInput, .inr rfl⟩
  have meetsEnd := meets_of_opens opensEnd (suits_oneOf (fun kind => ∃ name, kind = .identifier name) _)
  refine Predicts.of_agree ?_ (agree_oneOf ⟨ty, names⟩).followedBy
  refine taken.bind closed (meets_only _ ((opens_names "name").followedBy meetsEnd)) fun first => ?_
  refine identifier_foresees.bind meetsEnd fun name => ?_
  refine foresees_accept (by simp) ?_ (meets_only _ ((opens_expressions _).followedBy
    (meets_semicolon _))) ?_ ?_
  · exact expressionForesees.bind (meets_semicolon _) fun value =>
      (foresees_expect .semicolon).bind_quiet fun _ => quiet_previous _
  · exact (begins_only _).mono fun kind same => by simp [same]
  · exact fun state closed _ =>
      ((foresees_expectAs .semicolon _).bind_quiet fun _ => quiet_previous _) state closed

theorem assignment_foresees (expressionForesees : Foresees (expressions .expression) expression) :
    Foresees stores (assignment expression) := by
  refine identifier_foresees.bind (meets_of_opens opens_assigned (suits_oneOf _ _)) fun target => ?_
  intro state closed
  refine predicts_current ?_
  split
  · rename_i op found
    have goesOn : state.current.kind ≠ .endOfInput := by
      intro ended
      rw [ended] at found
      cases found
    have row := (predicts_advance closed rfl goesOn).bind closed
      (meets_only _ (opens_expressions _)) fun _ =>
        expressionForesees.bind_quiet fun value => quiet_pure
          (⟨target, op, value, target.span.merge value.span⟩ : Assignment)
    exact row.of_agree (agree_oneOf ⟨op, found⟩).followedBy
  · rename_i notFound
    obtain ⟨word, behind, stands⟩ := opens_assigned
    refine predicts_unexpected _ (refuses_nil _ behind stands ?_)
    intro word behind stands isNext
    obtain ⟨op, found⟩ := (begins_oneOf _).followedBy word behind stands
    rw [isNext, notFound] at found
    cases found

theorem parenthesized_foresees
    (expressionForesees : Foresees (expressions .expression) expression) :
    Foresees parentheses (parenthesized expression) :=
  (foresees_expect .leftParen).bind
    (meets_only _ ((opens_expressions _).followedBy (meets_closing _))) fun _ =>
    expressionForesees.bind (meets_closing _) fun inner =>
      (foresees_expect .rightParen).bind_quiet fun _ => quiet_pure inner

theorem conditional_predicts (statementForesees : Foresees statements statement)
    (expressionForesees : Foresees (expressions .expression) expression)
    (closed : state.closing.isEnd = true) (seen : state.current.kind = .keyword .ifWord) :
    Predicts Form.conditional.phrases (conditional statement expression) state := by
  refine (predicts_advance closed seen (by simp)).bind closed
    (meets_only _ (opens_parentheses.followedBy meets_branch)) fun first =>
    (parenthesized_foresees expressionForesees).bind meets_branch fun condition =>
      statementForesees.bind meets_otherwise fun branch => ?_
  refine foresees_accept (by simp) ?_ (meets_only _ opens_statements) (begins_nothing _) ?_
  · exact statementForesees.bind_quiet fun other => quiet_previous _
  · exact fun state closed noElse => (quiet_previous _).predicts (settles_nothing noElse)

theorem whileLoop_predicts (statementForesees : Foresees statements statement)
    (expressionForesees : Foresees (expressions .expression) expression)
    (closed : state.closing.isEnd = true) (seen : state.current.kind = .keyword .whileWord) :
    Predicts Form.whileLoop.phrases (whileLoop statement expression) state :=
  (predicts_advance closed seen (by simp)).bind closed
    (meets_only _ (opens_parentheses.followedBy meets_body)) fun _ =>
    (parenthesized_foresees expressionForesees).bind meets_body fun _ =>
      statementForesees.bind_quiet fun _ => quiet_previous _

theorem print_predicts (expressionForesees : Foresees (expressions .expression) expression)
    (closed : state.closing.isEnd = true) (seen : state.current.kind = .keyword .printWord) :
    Predicts Form.print.phrases (print expression) state :=
  (predicts_advance closed seen (by simp)).bind closed
    (meets_only _ (opens_parentheses.followedBy meets_printed)) fun _ =>
    (parenthesized_foresees expressionForesees).bind meets_printed fun _ =>
      (foresees_expect .semicolon).bind_quiet fun _ => quiet_previous _

theorem unlessAt_foresees {α : Type} {step : Parse α} {symbol : Symbol} {phrases : Phrases}
    (foresees : Foresees phrases step) (differs : phrases.Begins (· ≠ .symbol symbol)) :
    Foresees (perhaps symbol phrases) (unlessAt symbol step) := by
  intro state closed
  refine predicts_current (.ite (fun seen => ?_) fun unseen => ?_)
  · refine ((quiet_pure none).predicts (settles_nothing seen)).of_agree (agree_or_left ?_)
    rwa [seen]
  · refine Predicts.of_agree ((foresees state closed).bind_quiet fun value => quiet_pure (some value))
      (agree_or_right ((begins_nothing _).mono ?_))
    rintro kind rfl same
    exact unseen same.symm

theorem loopStart_foresees (expressionForesees : Foresees (expressions .expression) expression) :
    Foresees loopStarts (loopStart expression) := by
  have declarationsBegin : declarations.Begins fun kind => ∃ ty, kind.type? = some ty :=
    (begins_oneOf _).followedBy
  have storesBegin : (stores.followedBy (only (.symbol .semicolon))).Begins
      fun kind => ∃ name, kind = .identifier name := (begins_oneOf _).followedBy.followedBy
  intro state closed
  refine predicts_current ?_
  dsimp only
  split
  · rename_i ty names
    refine ((declaration_predicts expressionForesees closed names).bind_quiet
      fun declared => quiet_pure (LoopStart.declaration declared)).of_agree ?_
    refine (agree_or_left (storesBegin.mono ?_)).trans (agree_or_right ((begins_only _).mono ?_))
    · rintro kind ⟨name, rfl⟩ same
      rw [← same] at names
      cases names
    · rintro kind rfl same
      rw [← same] at names
      cases names
  · rename_i noType
    have notDeclared : declarations.Begins (· ≠ state.current.kind) := by
      refine declarationsBegin.mono ?_
      rintro kind ⟨ty, names⟩ same
      rw [same, noType] at names
      cases names
    split
    · rename_i seen
      refine ((predicts_advance closed seen (by simp)).bind_quiet
        fun _ => quiet_pure LoopStart.nothing).of_agree ?_
      rw [seen] at notDeclared ⊢
      refine agree_or_left (notDeclared.or (storesBegin.mono ?_))
      rintro kind ⟨name, rfl⟩ same
      cases same
    · rename_i name seen
      have row := ((assignment_foresees expressionForesees).bind meets_stored fun stored =>
        (foresees_expect .semicolon).bind_quiet fun _ => quiet_pure (LoopStart.assignment stored))
        state closed
      refine row.of_agree ((agree_or_right notDeclared).trans
        (agree_or_right ((begins_only _).mono ?_)))
      rintro kind rfl same
      rw [← same] at seen
      cases seen
    · rename_i notEmpty notStored
      refine predicts_unexpected _ (refuses_nil [.symbol .semicolon] .endOfInput (.inl rfl) ?_)
      rintro word behind (stands | stands | stands) isNext
      · exact notEmpty (isNext.symm.trans (begins_only _ word behind stands))
      · exact notDeclared word behind stands isNext
      · obtain ⟨name, same⟩ := storesBegin word behind stands
        exact notStored name (isNext.symm.trans same)

theorem forLoop_predicts (statementForesees : Foresees statements statement)
    (expressionForesees : Foresees (expressions .expression) expression)
    (closed : state.closing.isEnd = true) (seen : state.current.kind = .keyword .forWord) :
    Predicts Form.forLoop.phrases (forLoop statement expression) state := by
  have expressionsDiffer : (expressions .expression).Begins (· ≠ .symbol .semicolon) := by
    rintro word behind ⟨⟨limits, level, tree, derived⟩, _⟩
    obtain ⟨kind, rest, rfl, differs⟩ := expresses_head derived
    exact differs
  have storesDiffer : stores.Begins (· ≠ .symbol .rightParen) := by
    refine (begins_oneOf _).followedBy.mono ?_
    rintro kind ⟨name, rfl⟩ same
    cases same
  have meetsEnd := meets_only (.symbol .rightParen) opens_statements
  obtain ⟨word, behind, stands⟩ := opens_stores "name"
  have opensUpdate : (perhaps .rightParen stores).Opens (.identifier "name") :=
    ⟨word, behind, .inr stands⟩
  have meetsUpdate := meets_only (.symbol .semicolon) (opensUpdate.followedBy meets_update)
  refine (predicts_advance closed seen (by simp)).bind closed
    (meets_only _ ((opens_only _).followedBy meets_start)) fun _ => ?_
  refine (foresees_expect .leftParen).bind meets_start fun _ => ?_
  refine (loopStart_foresees expressionForesees).bind meets_header fun start => ?_
  refine (unlessAt_foresees expressionForesees expressionsDiffer).bind meets_condition fun _ => ?_
  refine (foresees_expect .semicolon).bind meetsUpdate fun _ => ?_
  refine (unlessAt_foresees (assignment_foresees expressionForesees) storesDiffer).bind meets_update
    fun _ => ?_
  refine (foresees_expect .rightParen).bind meetsEnd fun _ => ?_
  exact statementForesees.bind_quiet fun _ => quiet_previous _

theorem block_foresees (statementForesees : Foresees statements statement) :
    Foresees Form.block.phrases (block statement) := by
  have decides (token : Token) :
      (!(token.kind == .symbol .rightBrace || token.isEnd)) = true ↔ ¬EndsBlock token.kind := by
    simp [EndsBlock, Token.isEnd]
  have inner := many_foresees decides (.inr rfl) (statements_begin endsBlock_starts)
    statements_nonempty (meets_statements (.inl rfl) (by simp)) statementForesees
  exact (foresees_expect .leftBrace).bind (meets_only _ (opens_block.followedBy meets_blockEnd))
    fun _ => inner.bind meets_blockEnd fun _ =>
      (foresees_expect .rightBrace).bind_quiet fun _ => quiet_previous _

/-- The first token decides which form is read. -/
theorem statementBody_foresees (statementForesees : Foresees statements statement)
    (expressionForesees : Foresees (expressions .expression) expression) :
    Foresees statements (statementBody statement expression) := by
  intro state closed
  refine predicts_current ?_
  split
  · rename_i word seen
    split
    · rename_i ty names
      have isType : state.current.kind.type? = some ty := Kind.type?_eq_some_iff.mpr ⟨_, seen, names⟩
      have read := (declaration_predicts expressionForesees closed isType).bind_quiet
        fun declared => quiet_pure (Statement.declaration declared)
      refine read.of_agree (@agree_form _ .declaration ?_)
      rw [seen]
      cases word <;> first | rfl | cases names
    · rename_i noType
      split
      · exact (conditional_predicts statementForesees expressionForesees closed seen).of_agree
          (agree_form (by rw [seen]; rfl))
      · exact (whileLoop_predicts statementForesees expressionForesees closed seen).of_agree
          (agree_form (by rw [seen]; rfl))
      · exact (forLoop_predicts statementForesees expressionForesees closed seen).of_agree
          (agree_form (by rw [seen]; rfl))
      · exact (print_predicts expressionForesees closed seen).of_agree
          (agree_form (by rw [seen]; rfl))
      · rename_i noIf noWhile noFor noPrint
        refine predicts_unexpected _ (refuses_statement ?_)
        rw [seen]
        cases word with
        | ifWord => exact absurd rfl noIf
        | whileWord => exact absurd rfl noWhile
        | forWord => exact absurd rfl noFor
        | printWord => exact absurd rfl noPrint
        | intWord | floatWord | boolWord | stringWord => cases noType
        | elseWord | trueWord | falseWord => rfl
  · rename_i name seen
    have row := ((assignment_foresees expressionForesees).bind meets_stored fun stored =>
      (foresees_expect .semicolon).bind_quiet fun _ => quiet_pure (Statement.assignment stored))
      state closed
    refine row.of_agree (@agree_form _ .assignment ?_)
    rw [seen]
    rfl
  · rename_i seen
    refine (block_foresees statementForesees state closed).of_agree (agree_form ?_)
    rw [seen]
    rfl
  · rename_i seen
    have taken := (predicts_advance closed seen (by simp)).bind_quiet fun token =>
      quiet_pure (Statement.empty token.span)
    refine taken.of_agree (@agree_form _ .empty ?_)
    rw [seen]
    rfl
  · rename_i noKeyword noName noBrace noSemicolon
    refine predicts_unexpected _ (refuses_statement ?_)
    cases seen : state.current.kind with
    | keyword word => exact absurd seen (noKeyword word)
    | identifier name => exact absurd seen (noName name)
    | symbol sign =>
        rw [seen] at noBrace noSemicolon
        cases sign with
        | leftBrace => exact absurd rfl noBrace
        | semicolon => exact absurd rfl noSemicolon
        | _ => rfl
    | _ => rfl

end Bodies

theorem statement_foresees (levels : Nat) : Foresees statements (statement levels) := by
  induction levels with
  | zero => exact fun state closed => predicts_tooDeep
  | succ levels inductionHypothesis =>
      intro state closed
      exact predicts_nested
        (statementBody_foresees inductionHypothesis (expression_foresees levels) state.entered closed)

end Parse

end StagedAnalysis
