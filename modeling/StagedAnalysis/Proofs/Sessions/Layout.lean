import StagedAnalysis.Proofs.Layout.Checking
import StagedAnalysis.Proofs.Layout.Diagnostics
import StagedAnalysis.Proofs.Layout.Reading
import StagedAnalysis.Proofs.Sessions.Stages
/-!
Sessions over texts that differ in their layout alone.

Two texts may have the same tokens at different places, since blanks and comments lie between them
in another way. Sessions over two such texts stay alike whatever stage they run: a stage may run for
both or for neither, passes for both or for neither, and what it finds differs in places and
messages alone.
-/
namespace StagedAnalysis

/-! ### Alike sessions -/

structure StageOutcome.Alike (first second : StageOutcome) : Prop where
  stage : first.stage = second.stage
  passed : first.passed = second.passed
  diagnostics : Diagnostic.gists first.diagnostics = Diagnostic.gists second.diagnostics
  summary : first.summary = second.summary

structure Report.Alike (first second : Report) : Prop where
  success : first.success = second.success
  stage? : first.stage? = second.stage?
  passed : first.passed = second.passed
  tokenCount : first.tokenCount = second.tokenCount
  diagnostics : Diagnostic.gists first.diagnostics = Diagnostic.gists second.diagnostics
  summary : first.summary = second.summary

structure Progress.Alike (first second : Progress) : Prop where
  tokens? : first.tokens?.map (·.map (·.relocate .collapse)) =
    second.tokens?.map (·.map (·.relocate .collapse))
  program? : first.program?.map (·.relocate .collapse) =
    second.program?.map (·.relocate .collapse)
  passed : first.passed = second.passed
  diagnostics : Diagnostic.gists first.diagnostics = Diagnostic.gists second.diagnostics
  summary : first.summary = second.summary
  last? : first.last? = second.last?

structure Session.Alike (first second : Session) : Prop where
  blank : Text.isBlank first.source = Text.isBlank second.source
  source : (tokenize first.source).map (·.relocate .collapse) =
    (tokenize second.source).map (·.relocate .collapse)
  options : first.options = second.options
  progress : first.progress.Alike second.progress

theorem Progress.Alike.before {first second : Progress} (alike : first.Alike second)
    (stage : Stage) : (first.before stage).Alike (second.before stage) where
  tokens? := alike.tokens?
  program? := alike.program?
  passed := by simp only [Progress.before, alike.passed]
  diagnostics := by simp only [Progress.before, Diagnostic.gists_before, alike.diagnostics]
  summary := by simp only [Progress.before, alike.summary]
  last? := alike.last?

theorem Progress.Alike.record {first second : Progress} (alike : first.Alike second)
    {outcome other : StageOutcome} (same : outcome.Alike other) :
    (first.record outcome).Alike (second.record other) where
  tokens? := alike.tokens?
  program? := alike.program?
  passed := by simp only [Progress.record, alike.passed, same.passed, same.stage]
  diagnostics := by
    simp only [Progress.record, Diagnostic.gists_append, alike.diagnostics, same.diagnostics]
  summary := by simp only [Progress.record, alike.summary, same.stage, same.summary]
  last? := by simp only [Progress.record, same.stage, same.passed]

/-- A stage that finds diagnostics of the same gist passes for both or for neither. -/
theorem StageOutcome.alike_ofDiagnostics {first second : List Diagnostic}
    (same : first.map (·.gist) = second.map (·.gist)) (stage : Stage) {text other : String}
    (summary : text = other) :
    (ofDiagnostics stage first text).Alike (ofDiagnostics stage second other) where
  stage := rfl
  passed := by simp only [ofDiagnostics, Diagnostic.any_isError_of_gists same]
  diagnostics := by simp only [ofDiagnostics, Diagnostic.gists_eq_filter, same]
  summary := summary

namespace Session

variable {relocation : Relocation} {first second : Session}

theorem lexicalSummary_relocate (tokens : List Token) :
    lexicalSummary (tokens.map (·.relocate relocation)) = lexicalSummary tokens := by
  rw [lexicalSummary, isValidLexically_relocate, List.length_map, lexicalSummary]

theorem Alike.canRun (alike : first.Alike second) (stage : Stage) :
    first.canRun stage = second.canRun stage := by
  rw [Session.canRun, Session.canRun, alike.blank]
  simp only [hasPassed, alike.progress.passed]

theorem Alike.tokens (alike : first.Alike second) :
    first.tokens.map (·.relocate .collapse) = second.tokens.map (·.relocate .collapse) := by
  have same := congrArg (Option.getD · []) alike.progress.tokens?
  exact (Option.getD_map _ [] _).symm.trans (same.trans (Option.getD_map _ [] _))

theorem Alike.lexicalStep (alike : first.Alike second) :
    (first.step .lexical).1.Alike (second.step .lexical).1 ∧
      (first.step .lexical).2.Alike (second.step .lexical).2 := by
  have valid : isValidLexically (tokenize first.source) =
      isValidLexically (tokenize second.source) := by
    rw [← @isValidLexically_relocate .collapse, alike.source, isValidLexically_relocate]
  have summary : lexicalSummary (tokenize first.source) =
      lexicalSummary (tokenize second.source) := by
    rw [← @lexicalSummary_relocate .collapse, alike.source, lexicalSummary_relocate]
  rw [isValidLexically_eq, isValidLexically_eq] at valid
  have kept := alike.progress.before .lexical
  constructor
  · exact ⟨rfl, valid, lexicalDiagnostics_gists alike.source, summary⟩
  · exact ⟨congrArg some alike.source, rfl, kept.passed, kept.diagnostics, kept.summary,
      kept.last?⟩

theorem Alike.syntacticStep (alike : first.Alike second) :
    (first.step .syntactic).1.Alike (second.step .syntactic).1 ∧
      (first.step .syntactic).2.Alike (second.step .syntactic).2 := by
  have kept := alike.progress.before .syntactic
  have read := Program.ofTokens_collapse alike.tokens
  -- moving turns no program into a fault, so either both lists of tokens are programs or neither is
  cases parsed : Program.ofTokens first.tokens with
  | ok program =>
      cases others : Program.ofTokens second.tokens with
      | ok other =>
          rw [parsed, others] at read
          have same : program.relocate .collapse = other.relocate .collapse :=
            Except.ok.inj read
          rw [step_syntactic_of_ok parsed, step_syntactic_of_ok others]
          constructor
          · exact StageOutcome.alike_ofDiagnostics rfl .syntactic rfl
          · exact ⟨kept.tokens?, congrArg some same, kept.passed, kept.diagnostics, kept.summary,
              kept.last?⟩
      | error error =>
          rw [parsed, others] at read
          cases read
  | error error =>
      cases others : Program.ofTokens second.tokens with
      | ok other =>
          rw [parsed, others] at read
          cases read
      | error other =>
          rw [parsed, others] at read
          have same : [error].map (·.relocate .collapse) = [other].map (·.relocate .collapse) :=
            congrArg (fun fault => [fault]) (Except.error.inj read)
          rw [step_syntactic_of_error parsed, step_syntactic_of_error others]
          constructor
          · exact StageOutcome.alike_ofDiagnostics (gist_of_collapse same .syntactic) .syntactic rfl
          · exact ⟨kept.tokens?, rfl, kept.passed, kept.diagnostics, kept.summary, kept.last?⟩

theorem Alike.semanticStep (alike : first.Alike second) :
    (first.step .semantic).1.Alike (second.step .semantic).1 ∧
      (first.step .semantic).2.Alike (second.step .semantic).2 := by
  have kept := alike.progress.before .semantic
  have checked (session : Session) :
      ((session.progress.program?.map (·.check session.options.strict)).getD []).map
          (·.relocate .collapse) =
        ((session.progress.program?.map (·.relocate .collapse)).map
          (·.check session.options.strict)).getD [] :=
    (reports_relocate session.progress.program? (·.relocate .collapse) fun program =>
      program.check_relocate session.options.strict).symm
  have same : ((first.progress.program?.map (·.check first.options.strict)).getD []).map
        (·.relocate .collapse) =
      ((second.progress.program?.map (·.check second.options.strict)).getD []).map
        (·.relocate .collapse) := by
    rw [checked, checked, alike.progress.program?, alike.options]
  have summary := congrArg List.length same
  rw [List.length_map, List.length_map] at summary
  constructor
  · apply StageOutcome.alike_ofDiagnostics (gist_of_collapse same .semantic)
    simp only [semanticSummary, List.isEmpty_iff_length_eq_zero, summary]
  · exact kept

theorem Alike.after (alike : first.Alike second) (stage : Stage) :
    (first.after stage).Alike (second.after stage) := by
  cases stage with
  | lexical => exact alike.lexicalStep.2.record alike.lexicalStep.1
  | syntactic => exact alike.syntacticStep.2.record alike.syntacticStep.1
  | semantic => exact alike.semanticStep.2.record alike.semanticStep.1

theorem Alike.runStages (alike : first.Alike second) (stages : List Stage) :
    (first.runStages stages).1 = (second.runStages stages).1 ∧
      (first.runStages stages).2.Alike (second.runStages stages).2 := by
  induction stages generalizing first second with
  | nil => exact ⟨rfl, alike⟩
  | cons stage stages inductionHypothesis =>
      cases may : first.canRun stage with
      | false =>
          have refused := (alike.canRun stage).symm.trans may
          rw [Session.runStages, Session.runStages, run_of_not_canRun may,
            run_of_not_canRun refused]
          exact ⟨rfl, alike⟩
      | true =>
          have allowed := (alike.canRun stage).symm.trans may
          have behind := alike.after stage
          have next : Alike { first with progress := first.after stage }
              { second with progress := second.after stage } :=
            ⟨alike.blank, alike.source, alike.options, behind⟩
          rw [runStages_cons may, runStages_cons allowed, behind.passed]
          split
          · exact inductionHypothesis next
          · exact ⟨rfl, next⟩

theorem Alike.report (alike : first.Alike second) : first.report.Alike second.report where
  success := by simp only [Session.report, alike.progress.last?]
  stage? := by simp only [Session.report, alike.progress.last?]
  passed := alike.progress.passed
  tokenCount := by
    have count := congrArg List.length alike.tokens
    rw [List.length_map, List.length_map] at count
    exact congrArg UInt64.ofNat count
  diagnostics := alike.progress.diagnostics
  summary := by simp only [Session.report, alike.progress.summary]

theorem Alike.runUntil (alike : first.Alike second) (target : Stage) :
    (first.runUntil target).2.Alike (second.runUntil target).2 :=
  (alike.runStages (Stage.all.filter (!target.before ·))).2

/-- Two texts with the same tokens but for their places, neither of them blank, are analysed alike:
with any options and up to any stage, new sessions over them report the same but for the places and
messages of their diagnostics and the warning about a comment that is never closed. -/
theorem runUntil_alike {first second : String} (firstNotBlank : Text.isBlank first = false)
    (secondNotBlank : Text.isBlank second = false)
    (sameTokens : (tokenize first).map (fun token => (token.kind, token.lexeme)) =
      (tokenize second).map (fun token => (token.kind, token.lexeme)))
    (options : Options) (target : Stage) :
    ∃ firstReport secondReport,
      (((ofSource first).withOptions options).runUntil target).1 = .ok firstReport ∧
      (((ofSource second).withOptions options).runUntil target).1 = .ok secondReport ∧
      firstReport.Alike secondReport := by
  have source := congrArg (List.map fun parts => Token.mk parts.1 parts.2 .origin) sameTokens
  rw [List.map_map, List.map_map] at source
  have fresh : Alike ((ofSource first).withOptions options)
      ((ofSource second).withOptions options) := {
    blank := firstNotBlank.trans secondNotBlank.symm
    source := source
    options := rfl
    progress := ⟨rfl, rfl, rfl, rfl, rfl, rfl⟩ }
  have behind := fresh.runUntil target
  have firstRan := runUntil_fresh firstNotBlank options target
  have secondRan := runUntil_fresh secondNotBlank options target
  rw [firstRan, secondRan] at behind
  exact ⟨_, _, congrArg Prod.fst firstRan, congrArg Prod.fst secondRan, behind.report⟩

/-- Blanks, and a comment that is never closed, do not change what is said about a name that is not
declared. -/
theorem runUntil_alike_undeclared :
    ∃ firstReport secondReport,
      (((ofSource "x=1;").withOptions {}).runUntil .semantic).1 = .ok firstReport ∧
      (((ofSource " x = 1; /* one").withOptions {}).runUntil .semantic).1 = .ok secondReport ∧
      firstReport.Alike secondReport :=
  runUntil_alike (by decide) (by decide) (by decide +kernel) {} .semantic

end Session

end StagedAnalysis
