import StagedAnalysis.Proofs.Layout.Relocation
import StagedAnalysis.Proofs.Lexing.Positions
/-!
Lexemes written out, one in a line.

What a lexeme is does not depend on what follows it, as long as its line ends there. So the lexemes of a
source text, written one below the other, are the lexemes of what was written: as the same tokens, with
the same faults, at the beginning of one line each. Only the gaps are gone, and with them the comment
that is never closed.
-/
namespace StagedAnalysis

def onLines (tokens : List Token) : List Char :=
  tokens.flatMap fun token => token.lexeme.toList ++ ['\n']

/-- A source text written out again with every lexeme in a line of its own. -/
def writtenOut (source : String) : String :=
  String.ofList (onLines ((tokenize source).filter (!·.isEnd)))

def ScanStep.content (step : ScanStep) : Token × List AnalysisError :=
  (step.token.relocate .collapse, step.faults.map (·.relocate .collapse))

/-! ### One line -/

/-- Behind a lexeme and the end of its line a new line begins. -/
theorem Position.after_line {text : List Char} (inLine : '\n' ∉ text) (place : Position) :
    ((place.after text).next '\n').line = place.line + 1 ∧
      ((place.after text).next '\n').column = 1 := by
  rw [after_inLine inLine]
  exact ⟨rfl, rfl⟩

/-- What a step gives depends on what its lexeme is and on how it is written. -/
theorem ScanStep.content_of_scan {first : Char} {rest other behind : List Char}
    (same : Lexeme.scan first other = { Lexeme.scan first rest with rest := behind })
    (place place' : Position) :
    (ofLexeme place first other).content = (ofLexeme place' first rest).content := by
  rw [ofLexeme, ofLexeme, same]
  dsimp only
  cases (Lexeme.scan first rest).sort with
  | ok kind => rfl
  | error flaw => cases flaw <;> rfl

/-- A lexeme in a line of its own is cut off as it was before. -/
theorem ScanStep.CutsFrom.onLine {cursor : Cursor} {step : ScanStep} (cuts : step.CutsFrom cursor)
    (place : Position) (more : List Char) :
    ∃ copy next, (⟨place, step.token.lexeme.toList ++ '\n' :: more⟩ : Cursor).steps =
        copy :: (⟨next, more⟩ : Cursor).steps ∧
      copy.content = step.content ∧ copy.token.span.line = place.line ∧
      copy.token.span.column = place.column ∧ next.line = place.line + 1 ∧ next.column = 1 := by
  obtain ⟨before, first, rest, _, stops, rfl⟩ := cuts
  obtain ⟨body, shape⟩ := Lexeme.scan_text_head first rest
  have ends : ∀ next ∈ ('\n' :: more).head?, next = '\n' := by simp [eq_comm]
  have same := Lexeme.scan_of_cut ends shape
  have lines := Position.after_line (Lexeme.newline_notMem_scan stops.inLine rest) place
  have stops := stops.of_cut shape ends
  refine ⟨ofLexeme place first (body ++ '\n' :: more),
    (place.after (Lexeme.scan first rest).text).next '\n', ?_, content_of_scan same _ _, ?_, ?_, lines⟩
  · rw [(ofLexeme_token _ first rest).1, String.toList_ofList, shape, List.cons_append,
      Cursor.steps_of_stops stops, ofLexeme_next, same, shape, Cursor.steps_of_space rfl]
  · rw [(ofLexeme_token _ first _).2]
    rfl
  · rw [(ofLexeme_token _ first _).2]
    rfl

/-! ### All lines -/

def Token.begin (token : Token) : Nat × Nat :=
  (token.span.line, token.span.column)

/-- From the beginning of a line on, the lexemes are cut off line by line. -/
theorem Cursor.steps_onLines {cursor : Cursor} {lexemes : List ScanStep}
    (cuts : ∀ step ∈ lexemes, ScanStep.CutsFrom cursor step) {place : Position}
    (lineStart : place.column = 1) :
    ∃ copies last,
      (⟨place, onLines (lexemes.map (·.token))⟩ : Cursor).steps =
        copies ++ [.ofEnd ⟨⟨last, []⟩, none⟩] ∧
      copies.map (·.content) = lexemes.map (·.content) ∧
      (copies.map (·.token) ++ [.closing (.between last last)]).map (·.begin) =
        (List.range' place.line (lexemes.length + 1)).map (·, 1) := by
  induction lexemes generalizing place with
  | nil =>
      refine ⟨[], place, Cursor.steps_nil place, rfl, ?_⟩
      simp [Token.begin, Token.closing, Span.between, lineStart]
  | cons step lexemes inductionHypothesis =>
      obtain ⟨here, later⟩ := List.forall_mem_cons.mp cuts
      obtain ⟨copy, next, steps, same, line, column, nextLine, nextColumn⟩ :=
        here.onLine place (onLines (lexemes.map (·.token)))
      obtain ⟨copies, last, others, contents, begins⟩ := inductionHypothesis later nextColumn
      refine ⟨copy :: copies, last, ?_, ?_, ?_⟩
      · rw [List.map_cons, onLines, List.flatMap_cons, List.append_assoc, ← onLines]
        exact steps.trans (congrArg _ others)
      · rw [List.map_cons, List.map_cons, same, contents]
      · rw [List.map_cons, List.cons_append, List.map_cons, begins, nextLine, List.length_cons,
          @List.range'_succ place.line, List.map_cons, Token.begin, line, column, lineStart]

/-! ### Source texts -/

theorem ScanStep.EndsFrom.faults_isWarning {cursor : Cursor} {step : ScanStep}
    (ends : step.EndsFrom cursor) : ∀ error ∈ step.faults, error.isWarning = true := by
  obtain ⟨before, rest, _, _, rfl⟩ := ends
  intro error member
  obtain ⟨span, _, rfl⟩ := List.mem_map.mp member
  rfl

theorem ScanStep.CutsFrom.faults_isWarning {cursor : Cursor} {step : ScanStep}
    (cuts : step.CutsFrom cursor) : ∀ error ∈ step.faults, error.isWarning = false := by
  obtain ⟨before, first, rest, _, _, rfl⟩ := cuts
  unfold ofLexeme
  dsimp only
  split
  · exact List.forall_mem_nil _
  · exact List.forall_mem_singleton.mpr (Flaw.error_isWarning _ _ _)

/-- The tokens in front of the end of the input are those of the lexemes. -/
theorem Cursor.lexemes_goOn {cursor : Cursor} {lexemes : List ScanStep} {ending : ScanStep}
    (cuts : ∀ step ∈ lexemes, ScanStep.CutsFrom cursor step) (ends : ending.EndsFrom cursor) :
    ((lexemes ++ [ending]).map (·.token)).filter (!·.isEnd) = lexemes.map (·.token) := by
  obtain ⟨_, _, _, _, rfl⟩ := ends
  have goesOn : ∀ token ∈ lexemes.map (·.token), (!token.isEnd) = true := by
    intro token member
    obtain ⟨step, isLexeme, rfl⟩ := List.mem_map.mp member
    obtain ⟨_, first, rest, _, _, rfl⟩ := cuts step isLexeme
    simpa [Token.isEnd] using ScanStep.ofLexeme_goesOn _ first rest
  rw [List.map_append, List.filter_append, List.filter_eq_self.mpr goesOn]
  exact List.append_nil _

/-- The faults that are no warnings are those of the lexemes. -/
theorem Cursor.lexemes_faults {cursor : Cursor} {lexemes : List ScanStep} {ending : ScanStep}
    (cuts : ∀ step ∈ lexemes, ScanStep.CutsFrom cursor step) (ends : ending.EndsFrom cursor) :
    ((lexemes ++ [ending]).flatMap (·.faults)).filter (!·.isWarning) =
      lexemes.flatMap (·.faults) := by
  have flaws : ∀ error ∈ lexemes.flatMap (·.faults), (!error.isWarning) = true := by
    intro error member
    obtain ⟨step, isLexeme, found⟩ := List.mem_flatMap.mp member
    rw [(cuts step isLexeme).faults_isWarning error found]
    rfl
  have warnings : ending.faults.filter (!·.isWarning) = [] :=
    List.filter_eq_nil_iff.mpr fun error member => by simp [ends.faults_isWarning error member]
  rw [List.flatMap_append, List.flatMap_singleton, List.filter_append, warnings,
    List.filter_eq_self.mpr flaws, List.append_nil]

theorem map_token_of_content {copies lexemes : List ScanStep}
    (same : copies.map (·.content) = lexemes.map (·.content)) :
    (copies.map (·.token)).map (fun token => (token.kind, token.lexeme)) =
      (lexemes.map (·.token)).map (fun token => (token.kind, token.lexeme)) := by
  have written := congrArg (List.map fun content => (content.1.kind, content.1.lexeme)) same
  simpa [Function.comp_def, ScanStep.content, Token.relocate] using written

theorem map_faults_of_content {copies lexemes : List ScanStep}
    (same : copies.map (·.content) = lexemes.map (·.content)) :
    (copies.flatMap (·.faults)).map (·.relocate .collapse) =
      (lexemes.flatMap (·.faults)).map (·.relocate .collapse) := by
  have reported := congrArg (List.flatMap Prod.snd) same
  simpa [List.flatMap_map, List.map_flatMap, ScanStep.content] using reported

/-- Writing the lexemes of a source text out in lines of their own and tokenizing again gives the same
tokens, one at the beginning of each line, and the same faults but for the comment that is never
closed. -/
theorem tokenize_writtenOut (source : String) :
    (tokenize (writtenOut source)).map (fun token => (token.kind, token.lexeme)) =
        (tokenize source).map (fun token => (token.kind, token.lexeme)) ∧
      (tokenize (writtenOut source)).map (·.begin) =
        (List.range' 1 (tokenize source).length).map (·, 1) ∧
      (lexicalErrors (writtenOut source)).map (·.relocate .collapse) =
        ((lexicalErrors source).filter (!·.isWarning)).map (·.relocate .collapse) := by
  obtain ⟨lexemes, ending, steps, cuts, ends⟩ := (Cursor.ofSource source).steps_shape
  have lineStart : Position.start.column = 1 := rfl
  obtain ⟨copies, last, others, same, begins⟩ := Cursor.steps_onLines cuts lineStart
  have again : (Cursor.ofSource (writtenOut source)).steps =
      copies ++ [.ofEnd ⟨⟨last, []⟩, none⟩] := by
    rw [writtenOut, tokenize_eq, steps, Cursor.lexemes_goOn cuts ends, Cursor.ofSource,
      String.toList_ofList]
    exact others
  have flaws := Cursor.lexemes_faults cuts ends
  obtain ⟨_, _, _, _, isEnd⟩ := ends
  rw [tokenize_eq, tokenize_eq, lexicalErrors_eq, lexicalErrors_eq, again, steps, flaws]
  refine ⟨?_, ?_, ?_⟩
  · rw [List.map_append, List.map_append, List.map_append, List.map_append,
      map_token_of_content same, isEnd]
    rfl
  · rw [List.map_append, List.length_map, List.length_append]
    exact begins
  · rw [List.flatMap_append, List.map_append, map_faults_of_content same]
    exact List.append_nil _

example : writtenOut "1e+x /* \"" = "1e\n+\nx\n" := by decide +kernel

end StagedAnalysis
