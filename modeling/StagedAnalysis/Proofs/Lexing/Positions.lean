import Mathlib.Data.List.DropRight
import StagedAnalysis.Parsing.State
import StagedAnalysis.Proofs.Lexing.Extents
import StagedAnalysis.Proofs.Lexing.Lexemes
import StagedAnalysis.Proofs.Lexing.Tiling
/-!
Lines and columns.

Places are kept while a text is read, one character after the other. What they come to is the number of
line ends in front of a place, and the number of characters behind the last of them. This holds of every
token, of every fault, and also of the end that a reader of tokens puts behind the last token that it
has: that end is reckoned from the token alone, but a lexeme stays within its line.
-/
namespace StagedAnalysis

/-! ### Places -/

def lastLine (text : List Char) : List Char :=
  text.rtakeWhile (· ≠ '\n')

theorem lastLine_newline (text : List Char) : lastLine (text ++ ['\n']) = [] :=
  List.rtakeWhile_concat_neg _ _ _ (by simp)

theorem lastLine_concat {character : Char} (inLine : character ≠ '\n') (text : List Char) :
    lastLine (text ++ [character]) = lastLine text ++ [character] :=
  List.rtakeWhile_concat_pos _ _ _ (by simpa using inLine)

theorem Position.start_after_lines (text : List Char) :
    (start.after text).line = 1 + text.count '\n' ∧
      (start.after text).column = 1 + (lastLine text).length := by
  induction text using List.reverseRecOn with
  | nil => exact ⟨rfl, rfl⟩
  | append_singleton text character inductionHypothesis =>
      obtain ⟨line, column⟩ := inductionHypothesis
      rw [after_append, after_cons, after_nil, List.count_append]
      by_cases lineEnd : character = '\n'
      · subst lineEnd
        rw [lastLine_newline]
        exact ⟨congrArg (· + 1) line, rfl⟩
      · have noEnd : [character].count '\n' = 0 :=
          List.count_eq_zero_of_not_mem (by simpa using Ne.symm lineEnd)
        rw [lastLine_concat lineEnd, List.length_append, next, if_neg lineEnd, line, column, noEnd]
        exact ⟨rfl, rfl⟩

/-- Within a line, a text takes as many columns as it has characters. -/
theorem Position.after_inLine {text : List Char} (inLine : '\n' ∉ text) (place : Position) :
    place.after text =
      ⟨place.offset + byteSize text, place.line, place.column + text.length⟩ := by
  induction text generalizing place with
  | nil => rfl
  | cons character text inductionHypothesis =>
      rw [List.mem_cons, not_or] at inLine
      rw [after_cons, inductionHypothesis inLine.2, next, if_neg (Ne.symm inLine.1), byteSize_cons,
        List.length_cons, Nat.add_assoc, Nat.add_right_comm, Nat.add_assoc]

/-- The range begins at a place of the text: its start counts the bytes in front of it, its line the line
ends, and its column the characters behind the last line end. -/
def Span.BeginsIn (source : List Char) (span : Span) : Prop :=
  ∃ before behind, before ++ behind = source ∧ span.start = byteSize before ∧
    span.line = 1 + before.count '\n' ∧ span.column = 1 + (lastLine before).length

theorem Span.beginsIn_between {source before behind : List Char} (whole : before ++ behind = source)
    (last : Position) : (between (Position.start.after before) last).BeginsIn source := by
  obtain ⟨line, column⟩ := Position.start_after_lines before
  refine ⟨before, behind, whole, ?_, line, column⟩
  exact (Position.start.offset_after before).trans (Nat.zero_add _)

/-- No line and no column is greater than the text is long. -/
theorem Span.BeginsIn.le_length {source : List Char} {span : Span} (begins : span.BeginsIn source) :
    span.line ≤ source.length + 1 ∧ span.column ≤ source.length + 1 := by
  obtain ⟨before, behind, rfl, _, line, column⟩ := begins
  have ends : before.count '\n' ≤ before.length := List.count_le_length
  have characters : (lastLine before).length ≤ before.length :=
    (List.rtakeWhile_suffix _ before).length_le
  rw [line, column, List.length_append]
  omega

/-! ### Tokens and faults -/

theorem ScanStep.ofLexeme_faults (place : Position) (first : Char) (rest : List Char) :
    ∀ error ∈ (ofLexeme place first rest).faults,
      error.span? = some (ofLexeme place first rest).token.span := by
  unfold ofLexeme
  dsimp only
  split
  · exact List.forall_mem_nil _
  · rename_i flaw found
    refine List.forall_mem_singleton.mpr ?_
    cases flaw <;> rfl

variable {source : String} {step : ScanStep}

theorem ScanStep.CutsFrom.beginsIn (cuts : step.CutsFrom (.ofSource source)) :
    step.token.span.BeginsIn source.toList ∧ '\n' ∉ step.token.lexeme.toList ∧
      ∀ error ∈ step.faults, error.span? = some step.token.span := by
  obtain ⟨before, first, rest, whole, stops, rfl⟩ := cuts
  obtain ⟨lexeme, span⟩ := ofLexeme_token (Position.start.after before) first rest
  refine ⟨?_, ?_, ofLexeme_faults _ first rest⟩
  · rw [Cursor.ofSource, span]
    exact Span.beginsIn_between whole _
  · rw [Cursor.ofSource, lexeme, String.toList_ofList]
    exact Lexeme.newline_notMem_scan stops.inLine rest

theorem ScanStep.EndsFrom.beginsIn (ends : step.EndsFrom (.ofSource source)) :
    step.token.span.BeginsIn source.toList ∧ step.token.lexeme = "" ∧
      ∀ error ∈ step.faults, ∃ span, error.span? = some span ∧ span.BeginsIn source.toList := by
  obtain ⟨before, rest, whole, done, rfl⟩ := ends
  have skips : Gap.Over (Position.start.after before) rest
      (Gap.skip (Position.start.after before) .nothing rest) := Gap.skip_leads _ .nothing rest
  have whole : before ++ rest = source.toList := whole
  rw [Cursor.ofSource]
  generalize Gap.skip (Position.start.after before) .nothing rest = gap at skips
  cases skips with
  | @closed passed rest fills =>
      rw [← List.append_assoc] at whole
      rw [← Position.after_append]
      exact ⟨Span.beginsIn_between whole _, rfl, List.forall_mem_nil _⟩
  | @unclosed passed body fills within =>
      have opened : before ++ passed ++ '/' :: '*' :: body = source.toList := by
        rw [List.append_assoc, whole]
      rw [← List.append_nil (before ++ _)] at whole
      rw [← Position.after_append, ← Position.after_append]
      refine ⟨Span.beginsIn_between whole _, rfl, List.forall_mem_singleton.mpr ?_⟩
      exact ⟨_, rfl, Span.beginsIn_between opened _⟩

/-- Behind a token that stands in one line there is the end that its lexeme reaches. -/
theorem Span.behind_between {text : List Char} (inLine : '\n' ∉ text) (place : Position) :
    (between place (place.after text)).behind (String.ofList text) =
      between (place.after text) (place.after text) := by
  rw [Position.after_inLine inLine, behind, String.length_ofList]
  rfl

theorem ScanStep.CutsFrom.behind_beginsIn (cuts : step.CutsFrom (.ofSource source)) :
    (step.token.span.behind step.token.lexeme).BeginsIn source.toList := by
  obtain ⟨_, inLine, _⟩ := cuts.beginsIn
  obtain ⟨before, first, rest, whole, stops, rfl⟩ := cuts
  have split : before ++ (Lexeme.scan first rest).text ++ (Lexeme.scan first rest).rest =
      source.toList := by
    rw [List.append_assoc, Lexeme.scan_append, whole, Cursor.ofSource]
  obtain ⟨lexeme, span⟩ := ofLexeme_token (Position.start.after before) first rest
  rw [Cursor.ofSource] at inLine ⊢
  rw [lexeme, String.toList_ofList] at inLine
  rw [lexeme, span, Span.behind_between inLine, ← Position.after_append]
  exact Span.beginsIn_between split _

/-! ### Source texts -/

/-- Every token and every fault begins where its start, line and column say, and no lexeme has a line
end in it. The same goes for the end that is put behind a list of tokens whose own end is missing. In a
text of less than `UInt32.size - 1` characters all lines and columns are numbers of 32 bits. -/
theorem tokenize_positions (source : String) :
    (∀ token ∈ tokenize source, token.span.BeginsIn source.toList ∧ '\n' ∉ token.lexeme.toList) ∧
    (∀ error ∈ lexicalErrors source, ∃ span, error.span? = some span ∧
      span.BeginsIn source.toList) ∧
    (∀ tokens, tokens ≠ [] → tokens <+: tokenize source → tokens ≠ tokenize source →
      ∃ last ∈ tokens.getLast?,
        (ParseState.ofTokens tokens).closing = .closing (last.span.behind last.lexeme) ∧
        (last.span.behind last.lexeme).BeginsIn source.toList) ∧
    (source.length < UInt32.size - 1 → ∀ span : Span, span.BeginsIn source.toList →
      span.line < UInt32.size ∧ span.column < UInt32.size) := by
  obtain ⟨lexemes, ending, same, cuts, ends⟩ := (Cursor.ofSource source).steps_shape
  have split : tokenize source = lexemes.map (·.token) ++ [ending.token] := by
    rw [tokenize_eq, same, List.map_append, List.map_singleton]
  refine ⟨?_, ?_, ?_, ?_⟩
  · intro token member
    rw [split] at member
    rcases List.mem_append.mp member with among | last
    · obtain ⟨step, isLexeme, rfl⟩ := List.mem_map.mp among
      obtain ⟨begins, inLine, _⟩ := (cuts step isLexeme).beginsIn
      exact ⟨begins, inLine⟩
    · obtain ⟨begins, nothing, _⟩ := ends.beginsIn
      rw [List.mem_singleton.mp last, nothing]
      exact ⟨begins, List.not_mem_nil⟩
  · intro error member
    rw [lexicalErrors_eq, same, List.flatMap_append, List.flatMap_singleton] at member
    rcases List.mem_append.mp member with among | last
    · obtain ⟨step, isLexeme, found⟩ := List.mem_flatMap.mp among
      obtain ⟨begins, _, placed⟩ := (cuts step isLexeme).beginsIn
      exact ⟨_, placed error found, begins⟩
    · exact ends.beginsIn.2.2 error last
  · intro tokens notEmpty starts proper
    have among : tokens <+: lexemes.map (·.token) := by
      rw [split] at starts proper
      exact (List.prefix_concat_iff.mp starts).resolve_left proper
    have isLast := List.getLast?_eq_some_getLast notEmpty
    obtain ⟨step, isLexeme, same⟩ :=
      List.mem_map.mp (among.subset (List.getLast_mem notEmpty))
    refine ⟨_, isLast, ?_, same ▸ (cuts step isLexeme).behind_beginsIn⟩
    rw [ParseState.ofTokens, isLast]
  · intro short span begins
    have bounds := begins.le_length
    rw [String.length_toList] at bounds
    omega

/-- A character of two bytes, and a string that a backslash in front of the line end cuts off: the end
behind it is on its line. The comment in the next line is never closed. -/
theorem tokenize_positions_backslash :
    let source := "é \"a\\\n/* b\n"
    let letter : Token := ⟨.unknown, "é", ⟨0, 2, 1, 1⟩⟩
    let cut : Token := ⟨.unknown, "\"a\\", ⟨3, 6, 1, 3⟩⟩
    let comment : Span := ⟨7, 12, 2, 1⟩
    tokenize source = [letter, cut, .closing ⟨12, 12, 3, 1⟩] ∧
      cut.span.BeginsIn source.toList ∧ '\n' ∉ cut.lexeme.toList ∧
      .unterminatedComment comment ∈ lexicalErrors source ∧ comment.BeginsIn source.toList ∧
      (ParseState.ofTokens [letter, cut]).closing = .closing ⟨6, 6, 1, 6⟩ ∧
      Span.BeginsIn source.toList ⟨6, 6, 1, 6⟩ ∧
      source.length < UInt32.size - 1 ∧ comment.line < UInt32.size := by
  intro source letter cut comment
  have tokens : tokenize source = [letter, cut, .closing ⟨12, 12, 3, 1⟩] := by decide +kernel
  have reported : .unterminatedComment comment ∈ lexicalErrors source := by decide +kernel
  have behind : cut.span.behind cut.lexeme = ⟨6, 6, 1, 6⟩ := by decide
  have short : source.length < UInt32.size - 1 := by decide
  obtain ⟨placed, faults, ends, bounds⟩ := tokenize_positions source
  obtain ⟨begins, inLine⟩ := placed cut (by rw [tokens]; simp)
  obtain ⟨_, isPlace, commentBegins⟩ := faults _ reported
  cases isPlace
  obtain ⟨_, isLast, closing, endBegins⟩ := ends [letter, cut] (by simp)
    (by rw [tokens]; exact ⟨[.closing ⟨12, 12, 3, 1⟩], rfl⟩) (by rw [tokens]; simp)
  cases isLast
  exact ⟨tokens, begins, inLine, reported, commentBegins, closing.trans (congrArg _ behind),
    behind ▸ endBegins, short, (bounds short comment commentBegins).1⟩

end StagedAnalysis
