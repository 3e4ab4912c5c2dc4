import StagedAnalysis.Proofs.Lexing.Flaws
import StagedAnalysis.Proofs.Sessions.Agreement
/-!
What the transcript of a stage says about its outcome.

A stage decides twice how it went: its summary looks at tokens, at the result of parsing or at a
list of faults, while whether it passes is told by the severity of what it found. The two never
disagree.
-/
namespace StagedAnalysis

namespace Session

def completedText (tokens : List Token) : Stage → String
  | .lexical => s!"Lexical Analysis Completed.\nTokens: {tokens.length}"
  | .syntactic => "Syntax Analysis Completed."
  | .semantic => "Semantic Analysis Completed.\n\nALL ANALYSES PASSED! COMPILATION SUCCESSFUL!"

theorem lexicalSummary_eq_iff (tokens : List Token) :
    lexicalSummary tokens = completedText tokens .lexical ↔ isValidLexically tokens = true := by
  rw [lexicalSummary]
  split
  · rename_i valid
    exact iff_of_true rfl valid
  · rename_i invalid
    refine iff_of_false ?_ invalid
    intro same
    -- the two texts differ in the case of the letter behind the first word
    have letters := congrArg (fun text : String => text.toList[8]?) same
    change some 'a' =
      ("Lexical Analysis Completed.\nTokens: " ++ toString tokens.length).toList[8]? at letters
    rw [String.toList_append] at letters
    simp at letters

theorem syntacticSummary_eq_iff (tokens : List Token) (program? : Option Program) :
    syntacticSummary program? = completedText tokens .syntactic ↔ program?.isSome = true := by
  rw [syntacticSummary]
  cases program? with
  | none =>
      have different : "Syntax analysis FAILED!\nInvalid syntax." ≠
          "Syntax Analysis Completed." := by
        decide
      exact iff_of_false different Bool.false_ne_true
  | some program => exact iff_of_true rfl rfl

theorem semanticSummary_eq_iff (tokens : List Token) (errors : List AnalysisError) :
    semanticSummary errors = completedText tokens .semantic ↔ errors = [] := by
  rw [semanticSummary]
  cases errors with
  | nil => exact iff_of_true rfl rfl
  | cons error errors =>
      have different : "Semantic analysis FAILED!\nType mismatch or duplicate var." ≠
          completedText [] .semantic := by
        decide
      exact iff_of_false different (List.cons_ne_nil _ _)

/-- The summary of a stage is that of a completed stage if and only if the stage passes. -/
theorem step_summary_eq_iff (session : Session) (stage : Stage) :
    (session.step stage).1.summary = completedText (tokenize session.source) stage ↔
      (session.step stage).1.passed = true := by
  cases stage with
  | lexical =>
      rw [step, lexicalStep, StageOutcome.ofDiagnostics]
      exact (lexicalSummary_eq_iff _).trans (by rw [isValidLexically_eq])
  | syntactic =>
      cases parsed : Program.ofTokens session.tokens with
      | ok program =>
          rw [step_syntactic_of_ok parsed]
          exact iff_of_true rfl rfl
      | error error =>
          have severe := Program.isError_of_ofTokens parsed
          rw [step_syntactic_of_error parsed]
          refine (syntacticSummary_eq_iff _ none).trans (iff_of_false Bool.false_ne_true ?_)
          simp [StageOutcome.ofDiagnostics, severe]
  | semantic =>
      rw [step, semanticStep]
      dsimp only
      have meaning : AboutMeaning
          ((session.progress.program?.map (·.check session.options.strict)).getD []) :=
        aboutMeaning_of_part fun program => program.check_aboutMeaning session.options.strict
      generalize (session.progress.program?.map (·.check session.options.strict)).getD [] = errors
        at meaning ⊢
      refine (semanticSummary_eq_iff _ errors).trans ?_
      cases errors with
      | nil => exact iff_of_true rfl rfl
      | cons error errors =>
          have severe := meaning.isError (error.diagnostic .semantic) List.mem_cons_self
          refine iff_of_false (List.cons_ne_nil _ _) ?_
          simp [StageOutcome.ofDiagnostics, severe]

theorem isValidLexically_iff_clean (source : String) :
    isValidLexically (tokenize source) = true ↔
      ∀ found ∈ lexicalDiagnostics source, found.isError = false := by
  rw [isValidLexically_eq, Bool.not_eq_true', List.any_eq_false]
  simp only [Bool.not_eq_true]

/-- The faults of a text match its unknown tokens one by one, but for a comment that is never closed
in its last gap. So no token is unknown exactly where nothing found is an error, and running the
lexical stage on a session over the text passes exactly where its summary says so. -/
theorem lexicalErrors_match_unknown (source : String) :
    (∃ flaws comment?, lexicalErrors source = flaws ++ comment?.toList.map .unterminatedComment ∧
      List.Forall₂ Reports ((tokenize source).filter (·.isUnknown)) flaws ∧
      Tiles 0 source.toList (tokenize source) comment? ∧
      ∀ comment, comment? = some comment →
        ∃ before body, source.toList = before ++ '/' :: '*' :: body ∧ Gap.StaysOpen body ∧
          comment.start = byteSize before ∧ comment.stop = source.utf8ByteSize) ∧
    (isValidLexically (tokenize source) = true ↔
      ∀ found ∈ lexicalDiagnostics source, found.isError = false) ∧
    ∀ (options : Options) (progress : Progress),
      if Text.isBlank source = true then
        (run ⟨source, options, progress⟩ .lexical).1 = .error .emptySource
      else
        ∃ outcome, (run ⟨source, options, progress⟩ .lexical).1 = .ok outcome ∧
          outcome.diagnostics = lexicalDiagnostics source ∧
          (outcome.passed = true ↔ isValidLexically (tokenize source) = true) ∧
          (outcome.passed = true ↔
            outcome.summary = completedText (tokenize source) .lexical) := by
  refine ⟨?_, isValidLexically_iff_clean source, ?_⟩
  · obtain ⟨flaws, comment?, tiles, faults, reports⟩ := lexicalErrors_reports source
    refine ⟨flaws, comment?, faults, reports, tiles, ?_⟩
    intro comment found
    have range := tiles.comment_range found
    simpa only [Nat.zero_add, byteSize_toList] using range
  · intro options progress
    split
    · rename_i blank
      rw [run_of_not_canRun (by simpa [canRun, Stage.previous?] using blank)]
      rfl
    · rename_i notBlank
      rw [run_of_canRun (by simpa [canRun, Stage.previous?] using notBlank)]
      refine ⟨_, rfl, rfl, ?_, (step_summary_eq_iff _ .lexical).symm⟩
      rw [isValidLexically_eq]
      rfl

end Session

end StagedAnalysis
