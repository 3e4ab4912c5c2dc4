import StagedAnalysis.Proofs.Reading.Failures
import StagedAnalysis.Proofs.Reading.Programs
import StagedAnalysis.Proofs.Prefixes.Statements
/-!
A list of tokens is refused at the earliest possible token.

The reader of programs reads one statement after the other. Whatever it does not read as part of a
statement, and whatever cannot begin one, is refused; in the second case, and only then, what was read
is a program. For an `else` this is not immediate: it is behind a program only if the last statement
could not take it.
-/
namespace StagedAnalysis

open Token (Kind)
open Phrases
open Grammar

namespace Grammar

variable {word : List Kind} {kind : Kind}

/-- The words of the grammar without limits: those that some limits admit. -/
def IsProgram (word : List Kind) : Prop :=
  ∃ limits tree, Derives limits word tree

def programs : Phrases :=
  Many statements (· = .endOfInput)

theorem isProgram_of_statesAll {limits : Limits} {level : Nat} {trees : List Statement}
    (derived : StatesAll limits level word trees) : IsProgram word := by
  have roomier : Roomier limits level ⟨limits.depth + 1, limits.operators⟩ 1 :=
    ⟨Nat.le_add_right _ _, Nat.le_refl _⟩
  exact ⟨_, ⟨trees⟩, derived.shift roomier⟩

theorem isProgram_of_many {closes : Kind → Prop} {behind : Kind}
    (stands : Many statements closes word behind) : IsProgram word := by
  obtain ⟨limits, level, trees, derived⟩ := statesAll_of_many stands
  exact isProgram_of_statesAll derived

theorem IsProgram.stands (derived : IsProgram word) : programs word .endOfInput := by
  obtain ⟨limits, tree, derived⟩ := derived
  exact many_of_statesAll rfl (by simp) derived

/-! ### Refused programs -/

/-- A refused word can be gone on with. -/
theorem programs_viable (refuses : Refuses programs word kind) : ∃ more, IsProgram (word ++ more) := by
  obtain ⟨more, behind, stands⟩ := refuses.viable
  exact ⟨more, isProgram_of_many stands⟩

/-- A refused word cannot be gone on with by what it is refused for. -/
theorem programs_stuck {more : List Kind} (refuses : Refuses programs word kind)
    (isNext : Kind.ahead more = kind) : ¬IsProgram (word ++ more) :=
  fun derived => refuses.none more (word ++ more) [] isNext derived.stands (List.append_nil _)

/-- A statement that ends open takes an `else`. -/
theorem statements_of_endsOpen {limits : Limits} {level : Nat} {word : List Kind} {tree : Statement}
    (derived : States limits level word tree) (opened : tree.endsOpen = true) :
    statements (word ++ [.keyword .elseWord, .symbol .semicolon]) .endOfInput := by
  cases derived with
  | @ifThen _ _ branchWord _ branch fits tested derived =>
      by_cases inner : branch.endsOpen = true
      · have stands := statements_of_endsOpen derived inner
        refine @statement_of_form _ _ .conditional ⟨[_], _, ?_, rfl, _, _, rfl,
          ⟨[_], _, rfl, rfl, _, _, rfl, tested.stands rfl, rfl⟩, _, [], (List.append_nil _).symm,
          stands, .inr ⟨rfl, by simp⟩⟩
        simp
      · have empty : statements [.symbol .semicolon] .endOfInput := @statement_of_form _ _ .empty rfl
        refine @statement_of_form _ _ .conditional ⟨[_], _, ?_, rfl, _, _, rfl,
          ⟨[_], _, rfl, rfl, _, _, rfl, tested.stands rfl, rfl⟩, branchWord, _, rfl,
          ⟨_, _, _, derived, fun opened => absurd opened inner⟩,
          .inl ⟨[_], _, rfl, rfl, empty⟩⟩
        simp
  | @ifElse _ _ branchWord _ _ _ _ fits tested derived notOpen otherDerived =>
      have other := statements_of_endsOpen otherDerived opened
      refine @statement_of_form _ _ .conditional ⟨[_], _, ?_, rfl, _, _, rfl,
        ⟨[_], _, rfl, rfl, _, _, rfl, tested.stands rfl, rfl⟩, branchWord, _, rfl,
        ⟨_, _, _, derived, fun opened => ?_⟩, .inl ⟨[_], _, rfl, rfl, other⟩⟩
      · simp
      · rw [notOpen] at opened
        cases opened
  | whileLoop fits tested derived =>
      have body := statements_of_endsOpen derived opened
      refine @statement_of_form _ _ .whileLoop ⟨[_], _, ?_, rfl, _, _, rfl,
        ⟨[_], _, rfl, rfl, _, _, rfl, tested.stands rfl, rfl⟩, body⟩
      simp
  | forLoop fits started tested stepped derived =>
      have body := statements_of_endsOpen derived opened
      refine @statement_of_form _ _ .forLoop ⟨[_], _, ?_, rfl, [_], _, rfl, rfl, _, _, rfl,
        loopStarts_iff.mpr ⟨_, _, _, started⟩, _, _, rfl,
        tested.stands fun complete => complete.stands rfl, [_], _, rfl, rfl, _, _, rfl,
        stepped.stands fun derived => derived.stands rfl, [_], _, rfl, rfl, body⟩
      simp
  | declaration | assignment | print | block | empty => cases opened

/-- An `else` behind statements is behind all of them, or the last of them takes it. -/
theorem many_or_takes_else {limits : Limits} {level : Nat} {trees : List Statement}
    (derived : StatesAll limits level word trees) :
    Many statements (fun _ => True) word (.keyword .elseWord) ∨
      programs (word ++ [.keyword .elseWord, .symbol .semicolon]) .endOfInput := by
  induction trees generalizing word with
  | nil =>
      cases derived
      exact .inl (.nil trivial)
  | cons tree trees inductionHypothesis =>
      cases derived with
      | @cons _ taken _ _ _ derived othersDerived =>
          cases othersDerived with
          | nil =>
              rw [List.append_nil]
              by_cases opened : tree.endsOpen = true
              · exact .inr (.single (statements_of_endsOpen derived opened) rfl)
              · exact .inl (.single ⟨_, _, _, derived, fun still => absurd still opened⟩ trivial)
          | cons next others =>
              obtain ⟨kind, kinds, rfl, starts⟩ := states_head next
              have noElse : kind ≠ .keyword .elseWord := by
                rintro rfl
                cases starts
              have first (behind : Kind) (rest : List Kind) :
                  statements taken ((kind :: rest).headD behind) :=
                ⟨_, _, _, derived, fun _ => noElse⟩
              rcases inductionHypothesis (.cons next others) with stands | stands
              · exact .inl (.cons (first _ _) stands)
              · rw [List.append_assoc]
                exact .inr (.cons (first _ _) stands)

/-- What is refused behind a program is behind all of its statements. -/
theorem isProgram_iff_many (refuses : Refuses programs word kind) :
    IsProgram word ↔ Many statements (fun _ => True) word kind := by
  refine ⟨fun derived => ?_, isProgram_of_many⟩
  by_cases isElse : kind = .keyword .elseWord
  · subst isElse
    obtain ⟨limits, tree, derived⟩ := derived
    rcases many_or_takes_else derived with stands | stands
    · exact stands
    -- an `else` that the last statement takes is not refused
    · exact absurd (isProgram_of_many stands) (programs_stuck refuses rfl)
  · obtain ⟨limits, tree, derived⟩ := derived
    exact many_of_statesAll trivial isElse derived

end Grammar

namespace Parse

open ParseState (Moves)

variable {state stopped : ParseState} {error : AnalysisError}

theorem fails_outerStatement :
    outerStatement.Fails state error stopped ↔
      if state.current.kind.startsStatement then (statement maxDepth).Fails state error stopped
      else .trailingInput state.current.description state.current.span = error ∧ state = stopped := by
  change EStateM.run (if _ then _ else _) state = _ ↔ _
  split
  · rfl
  · exact EStateM.Result.error.injEq .. ▸ Iff.rfl

theorem fails_repeatWhile_cons {goesOn : Token → Bool} {step : Parse Statement} {token : Token}
    {budget : List Token} :
    (repeatWhile goesOn step (token :: budget)).Fails state error stopped ↔
      goesOn state.current = true ∧ (step.Fails state error stopped ∨ ∃ first between,
        step.Gives state first between ∧
          (repeatWhile goesOn step budget).Fails between error stopped) := by
  change (if goesOn state.current then
    step >>= fun first => repeatWhile goesOn step budget >>= fun others => pure (first :: others)
    else pure []).Fails state error stopped ↔ _
  by_cases goes : goesOn state.current = true
  · rw [if_pos goes, fails_bind, and_iff_right goes]
    refine or_congr_right (exists₂_congr fun first between => and_congr_right fun _ => ?_)
    rw [fails_bind]
    refine ⟨?_, .inl⟩
    rintro (failed | ⟨others, last, _, failed⟩)
    · exact failed
    · cases failed
  · rw [if_neg goes]
    refine iff_of_false (fun failed => by cases failed) fun split => goes split.1

/-- The statements of a program are repeated up to the end of the input. -/
theorem meets_programs : Meets statements programs :=
  meets_statements rfl (by simp)

theorem agree_programs (goesOn : state.current.isEnd = false) :
    AgreeAt state.current.kind (statements.followedBy programs) programs :=
  agree_many_cons (beq_eq_false_iff_ne.mp goesOn)

/-- A statement of the program is refused. Only what cannot begin one is input behind the program. -/
theorem outerStatement_refuses (closed : state.closing.isEnd = true)
    (failed : outerStatement.Fails state error stopped) (limited : error.exceedsLimit = false) :
    ∃ taken, Moves taken state stopped ∧
      Refuses statements (taken.map (·.kind)) stopped.current.kind ∧
      (error.isTrailing = true ↔
        Many statements (fun _ => True) (taken.map (·.kind)) stopped.current.kind) := by
  by_cases starts : state.current.kind.startsStatement = true
  · have inner := (if_pos starts).mp (fails_outerStatement.mp failed)
    obtain ⟨inside, taken, moves, refuses⟩ :=
      (statement_foresees maxDepth state closed).refuses inner limited
    have opens := opens_of_startsStatement starts
    rw [← moves.head] at opens
    exact ⟨taken, moves, refuses, by simp [inside, refuses.not_many opens]⟩
  · obtain ⟨rfl, rfl⟩ := (if_neg starts).mp (fails_outerStatement.mp failed)
    have none : Form.of? state.current.kind = none := by
      rw [← Option.not_isSome_iff_eq_none, Form.of?_isSome]
      exact starts
    exact ⟨[], .refl state, refuses_statement none, iff_of_true rfl (.nil trivial)⟩

/-- Reading a program fails behind a refused word. What it blames is input behind a program if and
only if the word is a row of statements. -/
theorem outerStatements_refuse {budget : List Token} (closed : state.closing.isEnd = true)
    (failed : (repeatWhile (fun token => !token.isEnd) outerStatement budget).Fails state error stopped)
    (limited : error.exceedsLimit = false) :
    ∃ taken, Moves taken state stopped ∧
      Refuses programs (taken.map (·.kind)) stopped.current.kind ∧
      (error.isTrailing = true ↔
        Many statements (fun _ => True) (taken.map (·.kind)) stopped.current.kind) := by
  -- on the budget: each statement that is read is settled by the token behind it
  induction budget generalizing state with
  | nil => cases failed
  | cons token budget inductionHypothesis =>
      obtain ⟨goesOn, split⟩ := fails_repeatWhile_cons.mp failed
      have inside : state.current.isEnd = false := Bool.not_eq_true' _ ▸ goesOn
      rcases split with firstFailed | ⟨first, between, firstGiven, othersFailed⟩
      · obtain ⟨taken, moves, refuses, trailing⟩ := outerStatement_refuses closed firstFailed limited
        refine ⟨taken, moves, (refuses.followedBy_left meets_programs).of_agree ?_, trailing⟩
        rw [moves.head]
        exact agree_programs inside
      · obtain ⟨_, given⟩ := gives_outerStatement.mp firstGiven
        obtain ⟨taken, moves, settles⟩ := (statement_foresees maxDepth state closed).reads given
        obtain ⟨left, leftMoves, refuses, trailing⟩ :=
          inductionHypothesis (moves.closing ▸ closed) othersFailed
        have whole := moves.trans leftMoves
        have agree := agree_programs inside
        rw [← leftMoves.head] at settles
        rw [← whole.head] at agree
        rw [List.map_append] at agree
        have notEmpty : taken.map (·.kind) ≠ [] := by
          intro empty
          rw [empty] at settles
          exact statements_nonempty _ settles.phrase
        refine ⟨taken ++ left, whole, ?_, ?_⟩
        · rw [List.map_append]
          exact (refuses.followedBy_right settles meets_programs).of_agree agree
        · rw [List.map_append, settles.many_iff notEmpty]
          exact trailing

end Parse

/-! ### Lists of tokens -/

def AnalysisError.got? : AnalysisError → Option String
  | unexpectedToken _ got _
  | expectedExpression got _
  | expectedIdentifier got _
  | trailingInput got _
  | typeMismatch _ got _ => some got
  | _ => none

/-- Where no limit is exceeded, the token at fault is described. -/
theorem Blames.got? {token : Token} {error : AnalysisError} (blames : Blames token error)
    (limited : error.exceedsLimit = false) :
    error.span? = some token.span ∧ error.got? = some token.description := by
  cases blames with
  | nestingTooDeep | expressionTooLong => cases limited
  | _ => exact ⟨rfl, rfl⟩

theorem Program.fails_of_ofTokens {tokens : List Token} {error : AnalysisError}
    (refused : Program.ofTokens tokens = .error error) :
    (Parse.repeatWhile (fun token => !token.isEnd) Parse.outerStatement tokens).Fails
      (.ofTokens tokens) error (ParseState.ofTokens tokens).program.2 := by
  unfold Program.ofTokens ParseState.program at refused
  unfold ParseState.program
  split at refused
  · cases refused
  · rename_i earlier stopped failed
    cases refused
    rcases Parse.fails_bind.mp failed with manyFailed | ⟨body, last, _, doneFailed⟩
    · exact manyFailed
    · cases doneFailed

/-- A list of tokens that is refused, other than by a limit, is refused at the earliest possible token.
Reading stops in front of a token, which may be the one that closes the list, and names it. What was
read up to there is the beginning of a program. No program goes on with that token, or, if it is the
end of the input, what was read is none. Only behind a complete program the fault is input behind it. -/
theorem Program.refused_at_earliest_token {tokens : List Token} {error : AnalysisError}
    (refused : Program.ofTokens tokens = .error error) (limited : error.exceedsLimit = false) :
    let start := ParseState.ofTokens tokens
    ∃ index ≤ tokens.length, start.program.2.rest = tokens.drop index ∧
      let token := tokens[index]?.getD start.closing
      let read := (tokens.take index).map (·.kind)
      error.span? = some token.span ∧ error.got? = some token.description ∧
        (∃ more, IsProgram (read ++ more)) ∧
        (token.isEnd = false → ∀ more, ¬IsProgram (read ++ token.kind :: more)) ∧
        (token.isEnd = true → ¬IsProgram read) ∧
        (error.isTrailing = true ↔ IsProgram read) := by
  intro start
  obtain ⟨named, described⟩ := (Program.blames_of_ofTokens refused).got? limited
  obtain ⟨taken, moves, refuses, trailing⟩ :=
    Parse.outerStatements_refuse rfl (Program.fails_of_ofTokens refused) limited
  have whole : tokens = taken ++ start.program.2.rest := moves.rest
  have isRest : tokens.drop taken.length = start.program.2.rest := by
    rw [whole, List.drop_left]
  have isRead : tokens.take taken.length = taken := by
    rw [whole, List.take_left]
  have isToken : tokens[taken.length]?.getD start.closing = start.program.2.current := by
    rw [← List.head?_drop, isRest, ParseState.current, List.headD_eq_head?_getD, moves.closing]
  refine ⟨taken.length, ?_, isRest.symm, ?_⟩
  · rw [whole, List.length_append]
    exact Nat.le_add_right _ _
  · rw [isToken, isRead]
    refine ⟨named, described, programs_viable refuses, fun _ more => programs_stuck refuses rfl, ?_, ?_⟩
    · intro ended
      have isNext : Kind.ahead [] = start.program.2.current.kind := (beq_iff_eq.mp ended).symm
      have stuck := programs_stuck refuses isNext
      rwa [List.append_nil] at stuck
    · exact trailing.trans (isProgram_iff_many refuses).symm

/-- Behind an `else` a branch has to come. The brace there is no input behind a program. -/
theorem Program.refused_at_missing_branch :
    let kinds : List Kind := [.keyword .ifWord, .symbol .leftParen, .keyword .trueWord,
      .symbol .rightParen, .symbol .semicolon, .keyword .elseWord]
    let brace : Token := ⟨.symbol .rightBrace, "", .origin⟩
    let tokens := kinds.map (⟨·, "", .origin⟩) ++ [brace]
    let error := AnalysisError.unexpectedToken "statement" brace.description .origin
    Program.ofTokens tokens = .error error ∧ error.exceedsLimit = false ∧
      (∃ more, IsProgram (kinds ++ more)) ∧ ¬IsProgram kinds ∧
      ∀ more, ¬IsProgram (kinds ++ brace.kind :: more) := by
  intro kinds brace tokens error
  have refused : Program.ofTokens tokens = .error error := rfl
  obtain ⟨index, inside, stopped, _, _, viable, stuck, _, trailing⟩ :=
    Program.refused_at_earliest_token refused rfl
  have isIndex : index = 6 := by
    have left : 1 = (tokens.drop index).length := congrArg List.length stopped
    have length : tokens.length = 7 := rfl
    rw [List.length_drop, length] at left
    omega
  subst isIndex
  have unfinished : ¬IsProgram kinds := fun whole => Bool.false_ne_true (trailing.mpr whole)
  exact ⟨refused, rfl, viable, unfinished, stuck rfl⟩

end StagedAnalysis
