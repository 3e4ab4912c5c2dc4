import StagedAnalysis.Proofs.Layout.Relocation
import StagedAnalysis.Proofs.Lexing.Positions
/-!
Texts one behind the other.

Nothing but a block comment goes on behind the end of a line. So where the first of two texts ends with its
last line, and all its comments are closed, its tokens are those that it has alone, and behind it the second
text is tokenized as if it stood alone too, only further on in the source and further down.
-/
namespace StagedAnalysis

/-! ### The same text at another place -/

/-- Moves ranges of a text to where they are if the text begins behind `front`, at the beginning of a
line. -/
def Relocation.behind (front : List Char) : Relocation where
  move span :=
    ⟨span.start + byteSize front, span.stop + byteSize front, span.line + front.count '\n',
      span.column⟩
  move_merge left right := by
    unfold Span.merge
    simp only [Nat.add_lt_add_iff_right]
    split <;> simp only [Nat.add_max_add_right]

section Behind

variable (front : List Char)

def Position.behind (place : Position) : Position :=
  ⟨place.offset + byteSize front, place.line + front.count '\n', place.column⟩

def Cursor.behind (cursor : Cursor) : Cursor :=
  ⟨cursor.place.behind front, cursor.rest⟩

def Gap.Inside.behind : Inside → Inside
  | nothing => nothing
  | lineComment => lineComment
  | blockComment opened => blockComment (opened.behind front)

def Gap.behind (gap : Gap) : Gap :=
  ⟨gap.next.behind front, gap.unclosed.map (Relocation.behind front).move⟩

def ScanStep.behind (step : ScanStep) : ScanStep :=
  ⟨step.token.relocate (.behind front), step.faults.map (·.relocate (.behind front)),
    step.next.behind front⟩

variable {front}

@[simp] theorem Relocation.move_between_behind (first last : Position) :
    (Relocation.behind front).move (.between first last) =
      .between (first.behind front) (last.behind front) :=
  rfl

@[simp] theorem Position.next_behind (place : Position) (character : Char) :
    (place.behind front).next character = (place.next character).behind front := by
  unfold next
  split <;> simp only [behind, Nat.add_right_comm]

@[simp] theorem Position.after_behind (place : Position) (text : List Char) :
    (place.behind front).after text = (place.after text).behind front := by
  induction text generalizing place with
  | nil => rfl
  | cons character text inductionHypothesis =>
      rw [after_cons, after_cons, next_behind, inductionHypothesis]

theorem Gap.skip_behind (place : Position) (inside : Inside) (text : List Char) :
    skip (place.behind front) (inside.behind front) text = (skip place inside text).behind front := by
  fun_induction skip place inside text with
  | case10 place inside noComment =>
      cases inside with
      | blockComment opened => exact absurd rfl (noComment opened)
      | _ => rfl
  | _ => simp_all [skip, Inside.behind, Gap.behind, Cursor.behind]

theorem Cursor.gap_behind (cursor : Cursor) :
    (cursor.behind front).gap = cursor.gap.behind front :=
  Gap.skip_behind cursor.place .nothing cursor.rest

theorem ScanStep.ofLexeme_behind (place : Position) (first : Char) (rest : List Char) :
    ofLexeme (place.behind front) first rest = (ofLexeme place first rest).behind front := by
  unfold ofLexeme
  dsimp only
  cases (Lexeme.scan first rest).sort with
  | ok kind => simp [ScanStep.behind, Cursor.behind, Token.relocate]
  | error flaw =>
      cases flaw <;>
        simp [ScanStep.behind, Cursor.behind, Token.relocate, Flaw.error, AnalysisError.relocate]

theorem ScanStep.ofGap_behind (gap : Gap) : ofGap (gap.behind front) = (ofGap gap).behind front := by
  obtain ⟨⟨place, rest⟩, unclosed⟩ := gap
  cases rest with
  | nil => cases unclosed <;> rfl
  | cons first rest => exact ofLexeme_behind place first rest

/-- A text is tokenized in the same way wherever it begins a line. -/
theorem Cursor.steps_behind (cursor : Cursor) :
    (cursor.behind front).steps = cursor.steps.map (·.behind front) := by
  fun_induction Cursor.steps cursor with
  | case1 cursor gap done =>
      rw [steps, gap_behind, ScanStep.ofGap_behind]
      exact if_pos done
  | case2 cursor gap more inductionHypothesis =>
      rw [steps, gap_behind, ScanStep.ofGap_behind, List.map_cons, ← inductionHypothesis]
      exact if_neg more

end Behind

/-! ### More text behind the end of a line -/

/-- The text is empty, or its last line is ended. -/
def EndsLine (text : List Char) : Prop :=
  ∀ last ∈ text.getLast?, last = '\n'

theorem EndsLine.of_append {first second : List Char} (ends : EndsLine (first ++ second)) :
    EndsLine second := by
  cases second with
  | nil => simp [EndsLine]
  | cons character second =>
      rw [EndsLine, List.getLast?_append_cons] at ends
      exact ends

theorem EndsLine.tail {character : Char} {rest : List Char} (ends : EndsLine (character :: rest)) :
    EndsLine rest :=
  @of_append [character] rest ends

/-- Where a line goes on, there is more of the text. -/
theorem EndsLine.goesOn {character : Char} {rest : List Char} (ends : EndsLine (character :: rest))
    (inLine : character ≠ '\n') : rest ≠ [] := by
  rintro rfl
  exact inLine (ends character rfl)

theorem EndsLine.eq_concat {text : List Char} (ends : EndsLine text) (more : text ≠ []) :
    ∃ before, text = before ++ ['\n'] := by
  obtain ⟨before, last, rfl⟩ := (List.eq_nil_or_concat' text).resolve_left more
  exact ⟨before, congrArg (before ++ [·]) (ends last List.getLast?_concat)⟩

/-- Where the last line of a text is ended, a new one begins behind it. -/
theorem EndsLine.start_after {text : List Char} (ends : EndsLine text) :
    Position.start.after text = Position.start.behind text := by
  obtain ⟨line, column⟩ := Position.start_after_lines text
  have offset := Position.start.offset_after text
  have noLine : lastLine text = [] := by
    by_cases nothing : text = []
    · rw [nothing]
      rfl
    · obtain ⟨before, rfl⟩ := ends.eq_concat nothing
      exact lastLine_newline before
  rw [noLine] at column
  generalize Position.start.after text = place at *
  obtain ⟨offset', line', column'⟩ := place
  cases offset
  cases line
  cases column
  rfl

/-- The lexeme at the head of a text whose last line is ended is the same if more text follows. -/
theorem Lexeme.scan_append_of_endsLine {first : Char} {rest : List Char}
    (ends : EndsLine (first :: rest)) (inLine : first ≠ '\n') (more : List Char) :
    scan first (rest ++ more) =
      { scan first rest with rest := (scan first rest).rest ++ more } := by
  obtain ⟨body, text⟩ := scan_text_head first rest
  have parts := scan_append first rest
  have noFeed := newline_notMem_scan inLine rest
  rw [text] at parts noFeed
  have whole : body ++ (scan first rest).rest = rest := (List.cons.inj parts).2
  -- the line end is not in the lexeme, so it is behind it
  have something : (scan first rest).rest ≠ [] := by
    intro nothing
    rw [nothing, List.append_nil] at parts
    obtain ⟨before, shape⟩ := ends.eq_concat (List.cons_ne_nil _ _)
    rw [parts, shape] at noFeed
    simp at noFeed
  rw [← parts] at ends
  obtain ⟨kept, left⟩ := (EndsLine.of_append ends).eq_concat something
  have feed : ∀ next ∈ ('\n' :: more).head?, next = '\n' :=
    fun next isNext => (Option.some.inj isNext).symm
  have split : rest ++ more = body ++ (kept ++ '\n' :: more) := by
    rw [← whole, left]
    simp
  rw [split, scan_of_kept feed text left, left, List.append_assoc, List.singleton_append]

/-- Where skipping stops in a text whose last line is ended, it goes on if more text follows. -/
theorem Gap.skip_append {place : Position} {inside : Inside} {text : List Char}
    (ends : EndsLine text) (goesOn : inside = .lineComment → text ≠ [])
    (closed : (skip place inside text).unclosed = none) (more : List Char) :
    skip place inside (text ++ more) =
      skip (skip place inside text).next.place .nothing
        ((skip place inside text).next.rest ++ more) := by
  fun_induction skip place inside text with
  | case1 place rest inductionHypothesis =>
      rw [List.cons_append, List.cons_append, skip]
      exact inductionHypothesis ends.tail.tail (fun _ => ends.tail.goesOn (by decide)) closed
  | case2 place rest inductionHypothesis =>
      rw [List.cons_append, List.cons_append, skip]
      exact inductionHypothesis ends.tail.tail (by simp) closed
  | case3 place character rest noLine noBlock separates inductionHypothesis =>
      have noSlash : character ≠ '/' := by
        rintro rfl
        cases separates
      rw [List.cons_append, skip, if_pos separates]
      · exact inductionHypothesis ends.tail (by simp) closed
      · exact fun _ same => absurd same noSlash
      · exact fun _ same => absurd same noSlash
  | case4 place character rest noLine noBlock different => rfl
  | case5 place rest inductionHypothesis =>
      rw [List.cons_append, skip, if_pos rfl]
      exact inductionHypothesis ends.tail (by simp) closed
  | case6 place character rest different inductionHypothesis =>
      rw [List.cons_append, skip, if_neg different]
      exact inductionHypothesis ends.tail (fun _ => ends.goesOn different) closed
  | case7 place opened rest inductionHypothesis =>
      rw [List.cons_append, List.cons_append, skip]
      exact inductionHypothesis ends.tail.tail (by simp) closed
  | case8 place opened character rest noClose inductionHypothesis =>
      rw [List.cons_append, skip]
      · exact inductionHypothesis ends.tail (by simp) closed
      · rintro behind rfl shape
        obtain ⟨next, rest, rfl⟩ := List.exists_cons_of_ne_nil (ends.goesOn (by decide))
        obtain ⟨rfl, _⟩ := List.cons.inj shape
        exact noClose rest rfl rfl
  | case9 place opened => cases closed
  | case10 place inside noComment =>
      cases inside with
      | nothing => rfl
      | lineComment => exact absurd rfl (goesOn rfl)
      | blockComment opened => exact absurd rfl (noComment opened)

/-- A gap in front of more text. -/
theorem Cursor.gap_append {cursor : Cursor} (ends : EndsLine cursor.rest)
    (closed : cursor.gap.unclosed = none) (more : List Char) :
    (⟨cursor.place, cursor.rest ++ more⟩ : Cursor).gap =
      (⟨cursor.gap.next.place, cursor.gap.next.rest ++ more⟩ : Cursor).gap :=
  @Gap.skip_append cursor.place .nothing cursor.rest ends (by simp) closed more

/-! ### All steps -/

def ScanStep.inFrontOf (more : List Char) (step : ScanStep) : ScanStep :=
  { step with next := ⟨step.next.place, step.next.rest ++ more⟩ }

theorem ScanStep.ofLexeme_append {place : Position} {first : Char} {rest : List Char}
    (ends : EndsLine (first :: rest)) (inLine : first ≠ '\n') (more : List Char) :
    ofLexeme place first (rest ++ more) = (ofLexeme place first rest).inFrontOf more := by
  rw [ofLexeme, ofLexeme, Lexeme.scan_append_of_endsLine ends inLine more]
  dsimp only
  cases (Lexeme.scan first rest).sort <;> rfl

theorem Gap.Stops.append {first : Char} {rest : List Char} (stops : Stops (first :: rest))
    (ends : EndsLine (first :: rest)) (more : List Char) : Stops (first :: (rest ++ more)) := by
  obtain ⟨second, rest, rfl⟩ := List.exists_cons_of_ne_nil (ends.goesOn stops.inLine)
  exact stops

theorem Cursor.unclosed_eq_none {cursor : Cursor}
    (closed : ∀ comment, .unterminatedComment comment ∉ cursor.step.faults) :
    cursor.gap.unclosed = none := by
  cases found : cursor.gap.unclosed with
  | none => rfl
  | some comment =>
      have done : cursor.gap.next.rest = [] := Gap.rest_eq_nil_of_unclosed found
      refine absurd ?_ (closed comment)
      rw [step, ScanStep.ofGap, done]
      simp [ScanStep.ofEnd, found]

/-- In front of the last step, more text behind the text goes unnoticed. -/
theorem Cursor.steps_append_cons {cursor : Cursor} (ends : EndsLine cursor.rest)
    (goesOn : cursor.gap.next.rest ≠ []) (more : List Char) :
    (⟨cursor.place, cursor.rest ++ more⟩ : Cursor).steps =
      cursor.step.inFrontOf more :: (cursor.step.inFrontOf more).next.steps := by
  have unclosed : cursor.gap.unclosed = none := by
    by_contra some
    obtain ⟨comment, found⟩ := Option.ne_none_iff_exists'.mp some
    exact goesOn (Gap.rest_eq_nil_of_unclosed found)
  have stops : Gap.Stops cursor.gap.next.rest := Gap.stops_skip cursor.place .nothing cursor.rest
  have left : EndsLine cursor.gap.next.rest := by
    obtain ⟨passed, whole, _⟩ := cursor.gap_over.moves
    rw [← whole] at ends
    exact ends.of_append
  obtain ⟨first, rest, shape⟩ := List.exists_cons_of_ne_nil goesOn
  have here : cursor.step = .ofLexeme cursor.gap.next.place first rest := by
    rw [step, ScanStep.ofGap, shape]
  rw [shape] at stops left
  rw [steps_congr (gap_append ends unclosed more), shape, List.cons_append,
    steps_of_stops (stops.append left more), ScanStep.ofLexeme_append left stops.inLine, here]

/-- The steps over a text whose last line is ended, and all of whose comments are closed, are the same if
more text follows, but that the last one gives way to the steps over what follows. -/
theorem Cursor.steps_append {cursor : Cursor} (ends : EndsLine cursor.rest)
    (closed : ∀ step ∈ cursor.steps, ∀ comment, .unterminatedComment comment ∉ step.faults)
    (more : List Char) :
    ∃ lexemes,
      cursor.steps = lexemes ++ [.ofEnd ⟨⟨cursor.place.after cursor.rest, []⟩, none⟩] ∧
      (⟨cursor.place, cursor.rest ++ more⟩ : Cursor).steps =
        lexemes.map (·.inFrontOf more) ++
          (⟨cursor.place.after cursor.rest, more⟩ : Cursor).steps := by
  fun_induction Cursor.steps cursor with
  | case1 cursor gap done =>
      have done : cursor.gap.next.rest = [] := done
      have unclosed := unclosed_eq_none (closed _ List.mem_cons_self)
      obtain ⟨passed, whole, place⟩ := cursor.gap_over.moves
      rw [done, List.append_nil] at whole
      have here : cursor.gap = ⟨⟨cursor.place.after cursor.rest, []⟩, none⟩ := by
        rw [← whole, ← place, ← done, ← unclosed]
      refine ⟨[], ?_, ?_⟩
      · change [ScanStep.ofGap cursor.gap] = _
        rw [here]
        rfl
      · rw [steps_congr (gap_append ends unclosed more), here]
        rfl
  | case2 cursor gap goesOn inductionHypothesis =>
      have split : (⟨cursor.place, cursor.rest ++ more⟩ : Cursor).steps =
          (ScanStep.ofGap gap).inFrontOf more :: ((ScanStep.ofGap gap).inFrontOf more).next.steps :=
        steps_append_cons ends goesOn more
      obtain ⟨passed, whole, place⟩ : ∃ passed, passed ++ (ScanStep.ofGap gap).next.rest = cursor.rest ∧
          (ScanStep.ofGap gap).next.place = cursor.place.after passed := cursor.step_moves
      have behind : (ScanStep.ofGap gap).next.place.after (ScanStep.ofGap gap).next.rest =
          cursor.place.after cursor.rest := by
        rw [place, ← Position.after_append, whole]
      rw [← whole] at ends
      obtain ⟨lexemes, same, others⟩ := inductionHypothesis ends.of_append
        fun step member => closed step (List.mem_cons_of_mem _ member)
      rw [behind] at same others
      refine ⟨ScanStep.ofGap gap :: lexemes, congrArg _ same, ?_⟩
      rw [split]
      exact congrArg _ others

/-! ### Source texts -/

/-- Where a source text ends with its last line and closes all its comments, and another one follows, the
tokens of the first, without the end of its input, are followed by those of the second, which are moved on
by the bytes and down by the lines of the first. The same goes for the faults. -/
theorem tokenize_append {first : String} (ends : EndsLine first.toList)
    (closed : ∀ comment, .unterminatedComment comment ∉ lexicalErrors first) (second : String) :
    ∃ tokens span, tokenize first = tokens ++ [.closing span] ∧
      tokenize (first ++ second) =
        tokens ++ (tokenize second).map (·.relocate (.behind first.toList)) ∧
      lexicalErrors (first ++ second) =
        lexicalErrors first ++ (lexicalErrors second).map (·.relocate (.behind first.toList)) := by
  rw [lexicalErrors_eq] at closed
  have allClosed : ∀ step ∈ (Cursor.ofSource first).steps, ∀ comment,
      .unterminatedComment comment ∉ step.faults :=
    fun step member comment found => closed comment (List.mem_flatMap.mpr ⟨step, member, found⟩)
  obtain ⟨lexemes, same, both⟩ := Cursor.steps_append ends allClosed second.toList
  have whole : (Cursor.ofSource (first ++ second)).steps =
      lexemes.map (·.inFrontOf second.toList) ++
        (Cursor.ofSource second).steps.map (·.behind first.toList) := by
    rw [Cursor.ofSource, ends.start_after] at both
    rw [← Cursor.steps_behind, Cursor.ofSource, String.toList_append]
    exact both
  let place := Position.start.after first.toList
  refine ⟨lexemes.map (·.token), .between place place, ?_, ?_, ?_⟩
  · rw [tokenize_eq, same, List.map_append]
    rfl
  · rw [tokenize_eq, tokenize_eq, whole, List.map_append, List.map_map, List.map_map, List.map_map]
    rfl
  · rw [lexicalErrors_eq, lexicalErrors_eq, lexicalErrors_eq, whole, same]
    simp [List.flatMap_map, List.map_flatMap, ScanStep.behind, ScanStep.inFrontOf, ScanStep.ofEnd]

/-- A comment over two lines, a string that the end of its line cuts off behind a backslash, and in the text
that follows a comment that is never closed. -/
theorem tokenize_append_unended :
    let first := "x /* é\n*/ \"s\\\n"
    let second := "1e+\n/* ü"
    let string : Token := ⟨.unknown, "\"s\\", ⟨11, 14, 2, 4⟩⟩
    let number : Token := ⟨.unknown, "1e", ⟨15, 17, 3, 1⟩⟩
    EndsLine first.toList ∧ (∀ comment, .unterminatedComment comment ∉ lexicalErrors first) ∧
      tokenize (first ++ second) =
        [⟨.identifier "x", "x", ⟨0, 1, 1, 1⟩⟩, string, number, ⟨.symbol .plus, "+", ⟨17, 18, 3, 3⟩⟩,
          .closing ⟨24, 24, 4, 5⟩] ∧
      lexicalErrors (first ++ second) =
        [.unterminatedString string.lexeme string.span, .malformedNumber number.lexeme number.span,
          .unterminatedComment ⟨19, 24, 4, 1⟩] := by
  intro first second string number
  have ends : EndsLine first.toList := by simp [EndsLine, first]
  have faults : lexicalErrors first = [.unterminatedString string.lexeme string.span] := by
    decide +kernel
  have closed : ∀ comment, .unterminatedComment comment ∉ lexicalErrors first := by
    rw [faults]
    simp
  obtain ⟨tokens, span, alone, both, errors⟩ := tokenize_append ends closed second
  have firstTokens : tokenize first =
      [⟨.identifier "x", "x", ⟨0, 1, 1, 1⟩⟩, string] ++ [.closing ⟨15, 15, 3, 1⟩] := by decide +kernel
  obtain ⟨rfl, _⟩ := List.append_inj' (alone.symm.trans firstTokens) rfl
  refine ⟨ends, closed, both.trans ?_, errors.trans ?_⟩
  · decide +kernel
  · decide +kernel

end StagedAnalysis
