import StagedAnalysis.Diagnosis
/-!
What tokenizing a text gives, step by step.

Every step but the last cuts off a lexeme: a token of the language and no fault, or an unknown
token and the one fault that names its flaw. The last step gives the end of the input, and at most
the fault of a comment that is never closed.
-/
namespace StagedAnalysis

open Token (Kind)

/-! ### Lexemes -/

namespace Lexeme

def IsProper (kind : Kind) : Prop :=
  kind ≠ .unknown ∧ kind ≠ .endOfInput

inductive Tells (first : Char) (rest : List Char) : Kind → Prop
  | keyword {word : Keyword} : Tells first rest (.keyword word)
  | identifier : Tells first rest (.identifier (String.ofList (scan first rest).text))
  | int {value : Int} : Tells first rest (.int value)
  | float {value : Binary64} : Tells first rest (.float value)
  | string (quote : first = '"') (closed : (Quoted.split rest).closed = true) :
      Tells first rest (.string (String.ofList (Quoted.split rest).value))
  | symbol {symbol : Symbol} : Tells first rest (.symbol symbol)

theorem scan_tells {first : Char} {rest : List Char} {kind : Kind}
    (found : (scan first rest).sort = .ok kind) : Tells first rest kind := by
  unfold scan at found
  split at found
  · rename_i start
    have text : (scan first rest).text = (first :: rest).takeWhile isWordPart := by
      rw [scan, if_pos start, ofWord]
    cases found
    rw [← text]
    split
    · exact .keyword
    · exact .identifier
  · split at found
    · unfold ofNumeral numeralSort at found
      dsimp only at found
      split at found
      · split at found
        · split at found <;> cases found
          exact .int
        · cases found
          exact .float
      · cases found
    · split at found
      · rename_i quote
        unfold ofQuoted at found
        dsimp only at found
        split at found <;> cases found
        rename_i closed
        exact .string quote closed
      · unfold ofSymbol at found
        split at found <;> cases found
        exact .symbol

theorem scan_isProper {first : Char} {rest : List Char} {kind : Kind}
    (found : (scan first rest).sort = .ok kind) : IsProper kind := by
  cases scan_tells found <;> exact ⟨by simp, by simp⟩

end Lexeme

theorem Flaw.error_stage? (flaw : Flaw) (lexeme : String) (span : Span) :
    (flaw.error lexeme span).stage? = some .lexical := by
  cases flaw <;> rfl

theorem Flaw.error_isWarning (flaw : Flaw) (lexeme : String) (span : Span) :
    (flaw.error lexeme span).isWarning = false := by
  cases flaw <;> rfl

/-! ### Steps -/

namespace ScanStep

inductive Cuts : ScanStep → Prop
  | token {kind : Kind} {text : String} {span : Span} {next : Cursor}
      (proper : Lexeme.IsProper kind) : Cuts ⟨⟨kind, text, span⟩, [], next⟩
  | flawed {flaw : Flaw} {text : String} {span : Span} {next : Cursor} :
      Cuts ⟨⟨.unknown, text, span⟩, [flaw.error text span], next⟩

inductive Ends : ScanStep → Prop
  | closed {span : Span} {next : Cursor} : Ends ⟨.closing span, [], next⟩
  | unclosed {span comment : Span} {next : Cursor} :
      Ends ⟨.closing span, [.unterminatedComment comment], next⟩

theorem ofLexeme_cuts (place : Position) (first : Char) (rest : List Char) :
    (ofLexeme place first rest).Cuts := by
  unfold ofLexeme
  dsimp only
  cases found : (Lexeme.scan first rest).sort with
  | ok kind => exact .token (Lexeme.scan_isProper found)
  | error flaw => exact .flawed

theorem ofEnd_ends (gap : Gap) : (ofEnd gap).Ends := by
  unfold ofEnd
  cases gap.unclosed with
  | none => exact .closed
  | some comment => exact .unclosed

end ScanStep

/-- The steps over a text: lexemes, and then the end. -/
theorem Cursor.steps_eq (cursor : Cursor) :
    ∃ lexemes ending, cursor.steps = lexemes ++ [ending] ∧
      (∀ step ∈ lexemes, ScanStep.Cuts step) ∧ ending.Ends := by
  fun_induction Cursor.steps cursor with
  | case1 cursor gap done =>
      refine ⟨[], .ofGap gap, rfl, List.forall_mem_nil _, ?_⟩
      rw [ScanStep.ofGap, done]
      exact ScanStep.ofEnd_ends gap
  | case2 cursor gap more inductionHypothesis =>
      obtain ⟨lexemes, ending, same, cuts, ends⟩ := inductionHypothesis
      refine ⟨.ofGap gap :: lexemes, ending, congrArg _ same, ?_, ends⟩
      refine List.forall_mem_cons.mpr ⟨?_, cuts⟩
      obtain ⟨first, rest, shape⟩ := List.exists_cons_of_ne_nil more
      rw [ScanStep.ofGap, shape]
      exact ScanStep.ofLexeme_cuts gap.next.place first rest

/-! ### Tokens and faults of a text -/

theorem tokenize_eq (source : String) :
    tokenize source = (Cursor.ofSource source).steps.map (·.token) :=
  rfl

theorem lexicalErrors_eq (source : String) :
    lexicalErrors source = (Cursor.ofSource source).steps.flatMap (·.faults) :=
  List.nil_append _

theorem lexicalErrors_stage? (source : String) :
    ∀ error ∈ lexicalErrors source, error.stage? = some .lexical := by
  obtain ⟨lexemes, ending, same, cuts, ends⟩ := (Cursor.ofSource source).steps_eq
  intro error found
  rw [lexicalErrors_eq, same, List.mem_flatMap] at found
  obtain ⟨step, member, found⟩ := found
  rcases List.mem_append.mp member with lexeme | last
  · cases cuts step lexeme with
    | token proper => cases found
    | flawed =>
        cases List.mem_singleton.mp found
        exact Flaw.error_stage? _ _ _
  · cases List.mem_singleton.mp last
    cases ends with
    | closed => cases found
    | unclosed =>
        cases List.mem_singleton.mp found
        rfl

theorem tokenize_shape (source : String) :
    ∃ tokens span, tokenize source = tokens ++ [.closing span] ∧
      ∀ token ∈ tokens, token.isEnd = false := by
  obtain ⟨lexemes, ending, same, cuts, ends⟩ := (Cursor.ofSource source).steps_eq
  have goesOn : ∀ token ∈ lexemes.map (·.token), token.isEnd = false := by
    intro token member
    obtain ⟨step, lexeme, rfl⟩ := List.mem_map.mp member
    cases cuts step lexeme with
    | token proper => simpa [Token.isEnd] using proper.2
    | flawed => rfl
  have closing : ∃ span, ending.token = .closing span := by
    cases ends with
    | @closed span next => exact ⟨span, rfl⟩
    | @unclosed span comment next => exact ⟨span, rfl⟩
  obtain ⟨span, closing⟩ := closing
  refine ⟨lexemes.map (·.token), span, ?_, goesOn⟩
  rw [tokenize_eq, same, List.map_append, List.map_singleton, closing]

/-- Every unknown token stands in front of the end of the input. -/
theorem mem_takeWhile_of_isUnknown {source : String} {token : Token}
    (member : token ∈ tokenize source) (unknown : token.isUnknown = true) :
    token ∈ (tokenize source).takeWhile (!·.isEnd) := by
  obtain ⟨tokens, span, shape, goesOn⟩ := tokenize_shape source
  have among : token ∈ tokens := by
    rw [shape] at member
    rcases List.mem_append.mp member with among | last
    · exact among
    · cases List.mem_singleton.mp last
      cases unknown
  rw [shape, List.takeWhile_append_of_pos fun token present => by simp [goesOn token present]]
  exact List.mem_append_left _ among

/-- A token is unknown if and only if the step that gives it meets an error. -/
theorem ScanStep.isUnknown_eq {step : ScanStep} (given : step.Cuts ∨ step.Ends) :
    step.token.isUnknown = step.faults.any (!·.isWarning) := by
  rcases given with cuts | ends
  · cases cuts with
    | token proper => simpa [Token.isUnknown] using proper.1
    | flawed => simp [Token.isUnknown, Flaw.error_isWarning]
  · cases ends <;> rfl

theorem AnalysisError.diagnostic_isError (error : AnalysisError) (stage : Stage) :
    (error.diagnostic stage).isError = !error.isWarning := by
  rw [Diagnostic.isError, diagnostic, severity]
  cases error.isWarning <;> rfl

/-- A text has no unknown token if and only if tokenizing it finds no error. -/
theorem isValidLexically_eq (source : String) :
    isValidLexically (tokenize source) = !(lexicalDiagnostics source).any (·.isError) := by
  obtain ⟨lexemes, ending, same, cuts, ends⟩ := (Cursor.ofSource source).steps_eq
  have given : ∀ step ∈ (Cursor.ofSource source).steps,
      step.token.isUnknown = step.faults.any (!·.isWarning) := by
    intro step member
    rw [same] at member
    rcases List.mem_append.mp member with lexeme | last
    · exact ScanStep.isUnknown_eq (.inl (cuts step lexeme))
    · cases List.mem_singleton.mp last
      exact ScanStep.isUnknown_eq (.inr ends)
  have errors : (fun error : AnalysisError => (error.diagnostic .lexical).isError) =
      fun error => !error.isWarning :=
    funext fun error => error.diagnostic_isError .lexical
  rw [isValidLexically, tokenize_eq, lexicalDiagnostics, lexicalErrors_eq, List.any_map,
    List.any_map, List.any_flatMap]
  simp only [Function.comp_def, errors]
  rw [Bool.not_inj_iff, Bool.eq_iff_iff, List.any_eq_true, List.any_eq_true]
  exact exists_congr fun step => and_congr_right fun member => by rw [given step member]

end StagedAnalysis
