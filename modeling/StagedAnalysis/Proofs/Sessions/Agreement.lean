import StagedAnalysis.Proofs.Reading.Programs
import StagedAnalysis.Proofs.Sessions.Stages
/-!
Sessions agree with the verdicts and diagnostics that are computed from the start.

A session tells whether a stage passes by the severity of what the stage found; the verdicts look at
tokens, at the result of parsing and at lists of faults. They agree because a text has an unknown
token exactly where tokenizing it finds an error, because no program has an unknown token, and
because faults of syntax and of meaning are never warnings.
-/
namespace StagedAnalysis

/-! ### Errors and unknown tokens -/

theorem AnalysisError.isWarning_eq_false {error : AnalysisError}
    (notLexical : error.stage? ≠ some .lexical) : error.isWarning = false := by
  cases error <;> first | rfl | exact absurd rfl notLexical

/-- Faults of syntax and of meaning are errors. -/
theorem AnalysisError.isError_of_stage? {error : AnalysisError} {stage : Stage}
    (notLexical : error.stage? ≠ some .lexical) : (error.diagnostic stage).isError = true := by
  rw [diagnostic_isError, isWarning_eq_false notLexical]
  rfl

theorem Program.isError_of_ofTokens {tokens : List Token} {error : AnalysisError}
    (refused : Program.ofTokens tokens = .error error) :
    (error.diagnostic .syntactic).isError = true := by
  have stage := (Program.blames_of_ofTokens refused).stage?
  exact AnalysisError.isError_of_stage? (by simp [stage])

theorem AboutMeaning.isError {errors : List AnalysisError} (meaning : AboutMeaning errors) :
    ∀ found ∈ errors.map (·.diagnostic .semantic), found.isError = true := by
  intro found member
  obtain ⟨error, reported, rfl⟩ := List.mem_map.mp member
  have stage := meaning error reported
  exact AnalysisError.isError_of_stage? (by simp [stage])

/-- What parsing and checking find are errors. -/
theorem semanticDiagnostics_isError (tokens : List Token) (strict : Bool) :
    ∀ found ∈ semanticDiagnostics tokens strict, found.isError = true := by
  rw [semanticDiagnostics]
  cases parsed : Program.ofTokens tokens with
  | ok program => exact (program.check_aboutMeaning strict).isError
  | error error => exact List.forall_mem_singleton.mpr (Program.isError_of_ofTokens parsed)

/-- No list of tokens with an unknown token in front of the end of the input is a program. -/
theorem isValidSyntax_eq_false_of_unknown {tokens : List Token}
    (found : ∃ token ∈ tokens.takeWhile (!·.isEnd), token.isUnknown = true) :
    isValidSyntax tokens = false := by
  obtain ⟨token, member, unknown⟩ := found
  rw [isValidSyntax]
  cases parsed : Program.ofTokens tokens with
  | error error => rfl
  | ok program =>
      obtain ⟨behind, given⟩ := Program.ofTokens_eq_ok_iff.mp parsed
      have derived := Parse.program_reads (ParseState.ofTokens_ready tokens) rfl given
      have known := Grammar.statesAll_known derived token.kind (List.mem_map_of_mem member)
      exact absurd (by simpa [Token.isUnknown] using unknown) known

theorem isValidSyntax_tokenize_eq_false {source : String}
    (invalid : isValidLexically (tokenize source) = false) :
    isValidSyntax (tokenize source) = false := by
  rw [isValidLexically, Bool.not_eq_false'] at invalid
  obtain ⟨token, member, unknown⟩ := List.any_eq_true.mp invalid
  exact isValidSyntax_eq_false_of_unknown
    ⟨token, mem_takeWhile_of_isUnknown member unknown, unknown⟩

theorem semanticDiagnostics_ne_nil {tokens : List Token} (strict : Bool)
    (invalid : isValidSyntax tokens = false) : semanticDiagnostics tokens strict ≠ [] := by
  rw [isValidSyntax] at invalid
  rw [semanticDiagnostics]
  cases parsed : Program.ofTokens tokens with
  | ok program =>
      rw [parsed] at invalid
      cases invalid
  | error error => exact List.cons_ne_nil _ _

theorem isValidSemantically_iff (tokens : List Token) :
    isValidSemantically tokens = true ↔ semanticDiagnostics tokens false = [] := by
  rw [isValidSemantically, semanticDiagnostics]
  cases Program.ofTokens tokens with
  | ok program => simp
  | error error => simp

namespace Session

/-! ### Settled verdicts -/

variable (source : String) (options : Options)

theorem report_settled_success (stage : Stage) :
    (report ⟨source, options, settled source options stage⟩).success = true ↔
      Passes source options stage := by
  cases stage <;> exact mem_after_passed.symm

theorem passes_lexical_iff :
    Passes source options .lexical ↔ isValidLexically (tokenize source) = true := by
  rw [isValidLexically_eq]
  exact mem_after_passed

theorem after_diagnostics (session : Session) (stage : Stage) :
    (session.after stage).diagnostics =
      session.progress.diagnostics.filter (·.stage.before stage) ++
        (session.step stage).1.diagnostics := by
  cases stage <;> rfl

theorem settled_lexical_diagnostics :
    (settled source options .lexical).diagnostics = lexicalDiagnostics source :=
  List.nil_append _

theorem filter_lexicalDiagnostics {stage : Stage} (later : Stage.lexical.before stage = true) :
    (lexicalDiagnostics source).filter (·.stage.before stage) = lexicalDiagnostics source := by
  refine List.filter_eq_self.mpr fun found member => ?_
  rw [(ofSource source).step_diagnostics_stage .lexical found member]
  exact later

/-! ### Parsing -/

variable {source} {program : Program} {error : AnalysisError}

theorem settled_of_ok (parsed : Program.ofTokens (tokenize source) = .ok program) :
    Passes source options .syntactic ∧
      (settled source options .syntactic).program? = some program ∧
      (settled source options .syntactic).diagnostics = lexicalDiagnostics source := by
  have stepped := @step_syntactic_of_ok ⟨source, {}, (ofSource source).after .lexical⟩ program parsed
  refine ⟨mem_after_passed.mpr ?_, ?_, ?_⟩
  · rw [stepped]
    rfl
  · rw [settled, after, stepped]
    rfl
  · rw [settled, after_diagnostics, stepped]
    refine (List.append_nil _).trans ?_
    exact filter_lexicalDiagnostics source rfl

theorem settled_of_error (refused : Program.ofTokens (tokenize source) = .error error) :
    ¬Passes source options .syntactic ∧
      (settled source options .syntactic).diagnostics =
        lexicalDiagnostics source ++ [error.diagnostic .syntactic] := by
  have stepped :=
    @step_syntactic_of_error ⟨source, {}, (ofSource source).after .lexical⟩ error refused
  have severe := Program.isError_of_ofTokens refused
  constructor
  · intro passed
    have clean := mem_after_passed.mp passed
    rw [stepped] at clean
    simp [StageOutcome.ofDiagnostics, severe] at clean
  · rw [settled, after_diagnostics, stepped]
    exact congrArg (· ++ _) (filter_lexicalDiagnostics source rfl)

theorem passes_syntactic_iff :
    Passes source options .syntactic ↔ isValidSyntax (tokenize source) = true := by
  rw [isValidSyntax]
  cases parsed : Program.ofTokens (tokenize source) with
  | ok program => exact iff_of_true (settled_of_ok options parsed).1 rfl
  | error error => exact iff_of_false (settled_of_error options parsed).1 Bool.false_ne_true

/-! ### Checking -/

/-- Faults of meaning are errors: checking passes only without any. -/
theorem checked_of_ok (parsed : Program.ofTokens (tokenize source) = .ok program) :
    (Passes source options .semantic ↔ semanticDiagnostics (tokenize source) options.strict = []) ∧
      (settled source options .semantic).diagnostics =
        lexicalDiagnostics source ++ semanticDiagnostics (tokenize source) options.strict := by
  obtain ⟨_, found, diagnostics⟩ := settled_of_ok options parsed
  have stepped : (Session.step ⟨source, options, settled source options .syntactic⟩
      .semantic).1.diagnostics = semanticDiagnostics (tokenize source) options.strict := by
    rw [semanticDiagnostics, parsed, step, semanticStep, found]
    rfl
  have severe := semanticDiagnostics_isError (tokenize source) options.strict
  have passed : (Session.step ⟨source, options, settled source options .syntactic⟩
      .semantic).1.passed =
        !(semanticDiagnostics (tokenize source) options.strict).any (·.isError) := by
    rw [← stepped]
    rfl
  constructor
  · rw [Passes, settled_semantic, mem_after_passed, passed]
    cases faults : semanticDiagnostics (tokenize source) options.strict with
    | nil => exact iff_of_true rfl rfl
    | cons fault others =>
        rw [faults] at severe
        simp [severe fault List.mem_cons_self]
  · rw [settled_semantic, after_diagnostics, stepped]
    dsimp only
    rw [diagnostics, filter_lexicalDiagnostics source rfl]

/-! ### Runs from the start -/

theorem stopsAt_of_invalid (invalid : isValidLexically (tokenize source) = false)
    (target : Stage) : stopsAt source options target = .lexical := by
  have refused : ¬Passes source options .lexical := by
    rw [passes_lexical_iff, invalid]
    exact Bool.false_ne_true
  cases target with
  | lexical => rfl
  | syntactic | semantic => exact if_neg refused

/-- Where a run up to the syntactic stage stops, it tells whether the tokens are a program. -/
theorem passes_stopsAt_syntactic_iff :
    Passes source options (stopsAt source options .syntactic) ↔
      isValidSyntax (tokenize source) = true := by
  cases valid : isValidLexically (tokenize source) with
  | false =>
      rw [stopsAt_of_invalid options valid, passes_lexical_iff, valid,
        isValidSyntax_tokenize_eq_false valid]
  | true =>
      rw [stopsAt, if_pos ((passes_lexical_iff source options).mpr valid), passes_syntactic_iff]

/-- Where a run of all stages stops, it tells whether parsing and checking find anything. -/
theorem passes_stopsAt_semantic_iff :
    Passes source options (stopsAt source options .semantic) ↔
      semanticDiagnostics (tokenize source) options.strict = [] := by
  cases valid : isValidLexically (tokenize source) with
  | false =>
      have invalid := isValidSyntax_tokenize_eq_false valid
      rw [stopsAt_of_invalid options valid, passes_lexical_iff, valid]
      exact iff_of_false Bool.false_ne_true (semanticDiagnostics_ne_nil options.strict invalid)
  | true =>
      rw [stopsAt, if_pos ((passes_lexical_iff source options).mpr valid)]
      cases parsed : Program.ofTokens (tokenize source) with
      | ok program =>
          rw [if_pos (settled_of_ok options parsed).1]
          exact (checked_of_ok options parsed).1
      | error error =>
          have refused := (settled_of_error options parsed).1
          rw [if_neg refused, semanticDiagnostics, parsed]
          exact iff_of_false refused (List.cons_ne_nil _ _)

theorem stopsAt_semantic_diagnostics :
    (settled source options (stopsAt source options .semantic)).diagnostics =
      if isValidLexically (tokenize source) = true then
        lexicalDiagnostics source ++ semanticDiagnostics (tokenize source) options.strict
      else lexicalDiagnostics source := by
  cases valid : isValidLexically (tokenize source) with
  | false =>
      rw [stopsAt_of_invalid options valid, settled_lexical_diagnostics]
      rfl
  | true =>
      rw [stopsAt, if_pos ((passes_lexical_iff source options).mpr valid), if_pos rfl]
      cases parsed : Program.ofTokens (tokenize source) with
      | ok program =>
          rw [if_pos (settled_of_ok options parsed).1]
          exact (checked_of_ok options parsed).2
      | error error =>
          obtain ⟨refused, diagnostics⟩ := settled_of_error options parsed
          rw [if_neg refused, diagnostics, semanticDiagnostics, parsed]

/-- A new session over a text that is not blank agrees with the verdicts on its tokens, stage by
stage, and reports what tokenizing finds and, if the tokens are valid, what parsing and checking
find. -/
theorem runUntil_agrees (source : String) (options : Options)
    (notBlank : Text.isBlank source = false) :
    let tokens := tokenize source
    let session := (ofSource source).withOptions options
    (∃ report, (session.runUntil .lexical).1 = .ok report ∧
      (report.success = true ↔ isValidLexically tokens = true)) ∧
    (∃ report, (session.runUntil .syntactic).1 = .ok report ∧
      (report.success = true ↔ isValidSyntax tokens = true)) ∧
    (∀ tokens : List Token, (∃ token ∈ tokens.takeWhile (!·.isEnd), token.isUnknown = true) →
      isValidSyntax tokens = false) ∧
    ∃ report, session.runAll.1 = .ok report ∧
      (report.success = true ↔ semanticDiagnostics tokens options.strict = []) ∧
      (options.strict = false → (report.success = true ↔ isValidSemantically tokens = true)) ∧
      report.diagnostics =
        if isValidLexically tokens = true then
          lexicalDiagnostics source ++ semanticDiagnostics tokens options.strict
        else lexicalDiagnostics source := by
  dsimp only
  refine ⟨?_, ?_, fun _ => isValidSyntax_eq_false_of_unknown, ?_⟩
  · rw [runUntil_fresh notBlank]
    refine ⟨_, rfl, ?_⟩
    rw [report_settled_success]
    exact passes_lexical_iff source options
  · rw [runUntil_fresh notBlank]
    refine ⟨_, rfl, ?_⟩
    rw [report_settled_success]
    exact passes_stopsAt_syntactic_iff options
  · have decides := @passes_stopsAt_semantic_iff source options
    rw [runAll, runUntil_fresh notBlank]
    refine ⟨_, rfl, ?_, ?_, stopsAt_semantic_diagnostics options⟩
    · rw [report_settled_success]
      exact decides
    · intro lenient
      rw [report_settled_success, isValidSemantically_iff, ← lenient]
      exact decides

/-- A character that no token begins with fails the lexical stage, and nothing else is reported. -/
theorem runUntil_agrees_unknown_character :
    (∃ report, (((ofSource "#").withOptions {}).runUntil .lexical).1 = .ok report ∧
      ¬report.success = true) ∧
    ∃ report, ((ofSource "#").withOptions {}).runAll.1 = .ok report ∧
      report.diagnostics = lexicalDiagnostics "#" := by
  have invalid : ¬isValidLexically (tokenize "#") = true := by
    rw [isValidLexically, tokenize_eq, Cursor.steps, if_neg (by decide)]
    exact Bool.false_ne_true
  obtain ⟨⟨first, firstRan, firstVerdict⟩, _, _, second, secondRan, _, _, diagnostics⟩ :=
    runUntil_agrees "#" {} (by decide)
  exact ⟨⟨first, firstRan, fun success => invalid (firstVerdict.mp success)⟩,
    second, secondRan, diagnostics.trans (if_neg invalid)⟩

end Session

end StagedAnalysis
