import StagedAnalysis.Proofs.Sessions.History
import StagedAnalysis.Proofs.Sessions.Transcripts
/-!
What holds of a session after any sequence of operations.

The parts of a session are changed by different operations, and running a stage trims some of them.
They always fit together: the stages that passed are the first ones, the transcript has an entry for
each of them and at most one more for the next stage, which failed, and there is a program exactly
where the syntactic stage passed. Once a stage ran, the report succeeds exactly where it counts no
error.
-/
namespace StagedAnalysis

namespace Session

variable {source : String} {options : Options} {stage : Stage}

/-! ### One stage -/

theorem after_passed (session : Session) (stage : Stage) :
    (session.after stage).passed = session.progress.passed.filter (·.before stage) ++
      if stage ∈ (session.after stage).passed then [stage] else [] := by
  have kept : (session.step stage).2.passed = session.progress.passed.filter (·.before stage) := by
    cases stage <;> rfl
  simp only [mem_after_passed]
  rw [after, Progress.record, kept, step_stage]
  split
  · rfl
  · rw [List.append_nil]

theorem after_summary (session : Session) (stage : Stage) :
    (session.after stage).summary = session.progress.summary.filter (·.1.before stage) ++
      [(stage, (session.step stage).1.summary)] := by
  cases stage <;> rfl

theorem after_last? (session : Session) (stage : Stage) :
    (session.after stage).last? = some (stage, (session.step stage).1.passed) := by
  cases stage <;> rfl

/-- The entries of the transcript are those of completed stages where the stages passed. -/
def Transcribed (source : String) (progress : Progress) : Prop :=
  ∀ entry ∈ progress.summary,
    (entry.2 = completedText (tokenize source) entry.1 ↔ entry.1 ∈ progress.passed)

theorem after_transcribed {session : Session}
    (transcribed : Transcribed session.source session.progress) (stage : Stage) :
    Transcribed session.source (session.after stage) := by
  intro entry member
  rw [after_summary] at member
  rcases List.mem_append.mp member with kept | own
  · obtain ⟨present, before⟩ := List.mem_filter.mp kept
    have other : entry.1 ≠ stage := by
      rintro rfl
      rw [Stage.before_self] at before
      exact Bool.false_ne_true before
    rw [transcribed entry present, after_passed, List.mem_append, List.mem_filter]
    constructor
    · intro passed
      exact .inl ⟨passed, before⟩
    · rintro (⟨passed, _⟩ | last)
      · exact passed
      · split at last
        · exact absurd (List.mem_singleton.mp last) other
        · cases last
  · cases List.mem_singleton.mp own
    rw [step_summary_eq_iff, mem_after_passed]

/-! ### Settled progress -/

theorem passes_of_stopsAt (reaches : stopsAt source options stage = stage) {earlier : Stage}
    (before : earlier.before stage = true) : Passes source options earlier := by
  have first : stage ≠ .lexical → Passes source options .lexical :=
    passes_lexical_of_stopsAt reaches
  cases stage with
  | lexical =>
      rw [Stage.before_lexical] at before
      cases before
  | syntactic =>
      cases earlier with
      | lexical => exact first (by simp)
      | syntactic | semantic => cases before
  | semantic =>
      have passed := first (by simp)
      cases earlier with
      | lexical => exact passed
      | syntactic =>
          rw [stopsAt, if_pos passed] at reaches
          by_cases parsed : Passes source options .syntactic
          · exact parsed
          · rw [if_neg parsed] at reaches
            cases reaches
      | semantic => cases before

/-- A run up to the stage at which a run stops goes as far. -/
theorem stopsAt_stopsAt (source : String) (options : Options) (target : Stage) :
    stopsAt source options (stopsAt source options target) = stopsAt source options target := by
  by_cases passed : Passes source options .lexical
  · cases target with
    | lexical => rfl
    | syntactic => simp only [stopsAt, if_pos passed]
    | semantic =>
        by_cases parsed : Passes source options .syntactic
        · simp only [stopsAt, if_pos passed, if_pos parsed]
        · simp only [stopsAt, if_pos passed, if_neg parsed]
  · cases target with
    | lexical => rfl
    | syntactic | semantic => simp only [stopsAt, if_neg passed]

theorem settled_transcribed (source : String) (options : Options) (stage : Stage) :
    Transcribed source (settled source options stage) := by
  have first : Transcribed source (settled source options .lexical) :=
    @after_transcribed (ofSource source) (List.forall_mem_nil _) .lexical
  have second : Transcribed source (settled source options .syntactic) :=
    @after_transcribed ⟨source, {}, settled source options .lexical⟩ first .syntactic
  cases stage with
  | lexical => exact first
  | syntactic => exact second
  | semantic =>
      exact @after_transcribed ⟨source, options, settled source options .syntactic⟩ second .semantic

/-- Settled progress has passed all stages before its own. -/
theorem settled_passed (reaches : stopsAt source options stage = stage) :
    (settled source options stage).passed = Stage.all.filter (·.before stage) ++
      if Passes source options stage then [stage] else [] := by
  have first : (settled source options .lexical).passed =
      if Passes source options .lexical then [.lexical] else [] :=
    after_passed (ofSource source) .lexical
  have second (passed : Passes source options .lexical) :
      (settled source options .syntactic).passed =
        .lexical :: if Passes source options .syntactic then [.syntactic] else [] := by
    have whole := after_passed ⟨source, {}, settled source options .lexical⟩ .syntactic
    rw [first, if_pos passed] at whole
    exact whole
  cases stage with
  | lexical => exact first
  | syntactic => exact second (passes_of_stopsAt reaches rfl)
  | semantic =>
      have whole := after_passed ⟨source, options, settled source options .syntactic⟩ .semantic
      rw [second (passes_of_stopsAt reaches rfl), if_pos (passes_of_stopsAt reaches rfl)] at whole
      exact whole

theorem settled_summary_stages (source : String) (options : Options) (stage : Stage) :
    (settled source options stage).summary.map (·.1) =
      Stage.all.filter (·.before stage) ++ [stage] := by
  cases stage <;> rfl

theorem settled_last? (source : String) (options : Options) (stage : Stage) :
    (settled source options stage).last? = some (stage, decide (Passes source options stage)) := by
  have passed {session : Session} : (session.step stage).1.passed =
      decide (stage ∈ (session.after stage).passed) := by
    rw [Bool.eq_iff_iff, decide_eq_true_iff, mem_after_passed]
  cases stage with
  | lexical => exact (after_last? _ _).trans (by rw [passed]; rfl)
  | syntactic => exact (after_last? _ _).trans (by rw [passed]; rfl)
  | semantic => exact (after_last? _ _).trans (by rw [passed]; rfl)

theorem settled_program?_eq_some_iff {program : Program} :
    (settled source options .syntactic).program? = some program ↔
      Program.ofTokens (tokenize source) = .ok program := by
  cases parsed : Program.ofTokens (tokenize source) with
  | ok other =>
      rw [(settled_of_ok options parsed).2.1, Option.some_inj, Except.ok.injEq]
  | error error =>
      have stepped :=
        @step_syntactic_of_error ⟨source, {}, (ofSource source).after .lexical⟩ error parsed
      have none : (settled source options .syntactic).program? = none := by
        rw [settled, after, stepped]
        rfl
      rw [none]
      exact iff_of_false (by simp) (by simp)

theorem settled_program?_isSome :
    (settled source options .syntactic).program?.isSome = true ↔
      Passes source options .syntactic := by
  rw [passes_syntactic_iff, isValidSyntax, Option.isSome_iff_exists]
  simp only [settled_program?_eq_some_iff]
  cases Program.ofTokens (tokenize source) with
  | ok program => exact iff_of_true ⟨program, rfl⟩ rfl
  | error error => exact iff_of_false (by simp) Bool.false_ne_true

/-- Behind what tokenizing finds there are errors alone, and where there is any, or where tokenizing
finds one, the stage does not pass. -/
theorem settled_diagnostics (reaches : stopsAt source options stage = stage) :
    ∃ severe, (settled source options stage).diagnostics = lexicalDiagnostics source ++ severe ∧
      (∀ found ∈ severe, found.isError = true) ∧
      (Passes source options stage ↔
        (∀ found ∈ lexicalDiagnostics source, found.isError = false) ∧ severe = []) := by
  have clean := (passes_lexical_iff source options).trans (isValidLexically_iff_clean source)
  cases stage with
  | lexical =>
      refine ⟨[], ?_, List.forall_mem_nil _, clean.trans (and_iff_left rfl).symm⟩
      rw [settled_lexical_diagnostics, List.append_nil]
  | syntactic =>
      have passed := clean.mp (passes_of_stopsAt reaches rfl)
      cases parsed : Program.ofTokens (tokenize source) with
      | ok program =>
          obtain ⟨passes, _, diagnostics⟩ := settled_of_ok options parsed
          refine ⟨[], ?_, List.forall_mem_nil _, iff_of_true passes ⟨passed, rfl⟩⟩
          rw [diagnostics, List.append_nil]
      | error error =>
          obtain ⟨refused, diagnostics⟩ := settled_of_error options parsed
          have severe := Program.isError_of_ofTokens parsed
          refine ⟨_, diagnostics, List.forall_mem_singleton.mpr severe, iff_of_false refused ?_⟩
          exact fun both => List.cons_ne_nil _ _ both.2
  | semantic =>
      have passed := clean.mp (passes_of_stopsAt reaches rfl)
      have valid := (passes_syntactic_iff options).mp (passes_of_stopsAt reaches rfl)
      rw [isValidSyntax] at valid
      cases parsed : Program.ofTokens (tokenize source) with
      | error error =>
          rw [parsed] at valid
          cases valid
      | ok program =>
          obtain ⟨passes, diagnostics⟩ := checked_of_ok options parsed
          have severe := semanticDiagnostics_isError (tokenize source) options.strict
          exact ⟨_, diagnostics, severe, passes.trans (and_iff_right passed).symm⟩

/-- Tokenizing finds at most one warning. -/
theorem lexicalDiagnostics_length_le (source : String) :
    (lexicalDiagnostics source).length ≤ (lexicalDiagnostics source).countP (·.isError) + 1 := by
  obtain ⟨flaws, comment?, _, faults, reports⟩ := lexicalErrors_reports source
  have severe : ∀ found ∈ flaws.map (·.diagnostic .lexical), found.isError = true := by
    intro found member
    obtain ⟨flaw, present, rfl⟩ := List.mem_map.mp member
    rw [AnalysisError.diagnostic_isError, reports_isWarning reports flaw present]
    rfl
  rw [lexicalDiagnostics, faults, List.map_append, List.countP_append, List.length_append,
    List.countP_eq_length.mpr severe]
  cases comment? with
  | none => exact Nat.le_add_right _ _
  | some comment => exact Nat.add_le_add_right (Nat.le_add_right _ _) 1

/-! ### Reports -/

theorem report_counts (reaches : stopsAt source options stage = stage) (current : Options) :
    let report := report ⟨source, current, settled source options stage⟩
    (report.success = true ↔ report.errorCount = 0) ∧
      (report.errorCount = 0 ↔ Passes source options stage) ∧ report.warningCount ≤ 1 := by
  obtain ⟨severe, diagnostics, allSevere, passes⟩ := settled_diagnostics reaches
  have success := report_settled_success source options stage
  have few := lexicalDiagnostics_length_le source
  have errors : (report ⟨source, current, settled source options stage⟩).errorCount =
      (lexicalDiagnostics source).countP (·.isError) + severe.length := by
    rw [Report.errorCount, report, diagnostics, List.countP_append,
      List.countP_eq_length.mpr allSevere]
  have all : (report ⟨source, current, settled source options stage⟩).diagnostics.length =
      (lexicalDiagnostics source).length + severe.length := by
    rw [report, diagnostics, List.length_append]
  have none : (report ⟨source, current, settled source options stage⟩).errorCount = 0 ↔
      Passes source options stage := by
    rw [errors, Nat.add_eq_zero_iff, List.countP_eq_zero, List.length_eq_zero_iff, passes]
    simp only [Bool.not_eq_true]
  refine ⟨success.trans none.symm, none, ?_⟩
  rw [Report.warningCount, all, errors]
  omega

/-! ### Any session -/

structure Consistent (session : Session) : Prop where
  passed : session.progress.passed <+: Stage.all
  /-- The transcript goes with the stages that passed, and at most one more that failed. -/
  summaryStages : session.progress.summary.map (·.1) = session.progress.passed ∨
    ∃ failed, Stage.all[session.progress.passed.length]? = some failed ∧
      session.progress.last? = some (failed, false) ∧
      session.progress.summary.map (·.1) = session.progress.passed ++ [failed]
  summaryTexts : ∀ entry ∈ session.progress.summary,
    (entry.2 = completedText (tokenize session.source) entry.1 ↔
      entry.1 ∈ session.progress.passed)
  tokens : ∀ tokens, session.progress.tokens? = some tokens → tokens = tokenize session.source
  program : session.progress.program?.isSome = true ↔ Stage.syntactic ∈ session.progress.passed
  parsed : ∀ program, session.progress.program? = some program →
    Program.ofTokens session.tokens = .ok program
  canCheck : session.canRun .semantic = true → session.progress.program?.isSome = true
  semanticFirst : session.canRun .semantic = true → session.canRun .syntactic = true
  syntacticFirst : session.canRun .syntactic = true → session.canRun .lexical = true

theorem untouched_consistent {session : Session} (fresh : session.progress = .fresh) :
    session.Consistent := by
  obtain ⟨source, options, progress⟩ := session
  cases fresh
  exact {
    passed := List.nil_prefix
    summaryStages := .inl rfl
    summaryTexts := List.forall_mem_nil _
    tokens := fun tokens found => by cases found
    program := iff_of_false Bool.false_ne_true List.not_mem_nil
    parsed := fun program found => by cases found
    canCheck := fun may => by cases may
    semanticFirst := fun may => by cases may
    syntacticFirst := fun may => by cases may }

theorem reached_consistent (notBlank : Text.isBlank source = false)
    (reaches : stopsAt source options stage = stage) (current : Options) :
    Consistent ⟨source, current, settled source options stage⟩ := by
  have passed := settled_passed reaches
  have parsed {program : Program} : (settled source options stage).program? = some program →
      Program.ofTokens (tokenize source) = .ok program := by
    intro found
    cases stage with
    | lexical => cases found
    | syntactic | semantic => exact (@settled_program?_eq_some_iff source options program).mp found
  have program : (settled source options stage).program?.isSome = true ↔
      .syntactic ∈ (settled source options stage).passed := by
    cases stage with
    | lexical =>
        refine iff_of_false Bool.false_ne_true ?_
        rw [passed]
        split <;> decide
    | syntactic => exact settled_program?_isSome
    | semantic =>
        have earlier : Passes source options .syntactic := passes_of_stopsAt reaches rfl
        refine iff_of_true (settled_program?_isSome.mpr earlier) ?_
        rw [passed]
        exact List.mem_append_left _ (by decide)
  refine {
    passed := ?_
    summaryStages := ?_
    summaryTexts := settled_transcribed source options stage
    tokens := ?_
    program := program
    parsed := ?_
    canCheck := ?_
    semanticFirst := ?_
    syntacticFirst := ?_ }
  · dsimp only
    rw [passed]
    split
    · cases stage <;> decide
    · cases stage <;> decide
  · dsimp only
    rw [settled_summary_stages, passed, settled_last?]
    by_cases passes : Passes source options stage
    · rw [if_pos passes]
      exact .inl rfl
    · rw [if_neg passes, decide_eq_false passes]
      refine .inr ⟨stage, ?_, rfl, by rw [List.append_nil]⟩
      cases stage <;> rfl
  · intro tokens found
    rw [settled_tokens?, Option.some_inj] at found
    exact found.symm
  · intro program found
    rw [Session.tokens, settled_tokens?]
    exact parsed found
  · intro may
    exact program.mpr (List.contains_iff_mem.mp may)
  · intro may
    have later : Stage.syntactic ∈ (settled source options stage).passed :=
      List.contains_iff_mem.mp may
    refine List.contains_iff_mem.mpr ?_
    dsimp only
    rw [passed] at later ⊢
    cases stage with
    | lexical =>
        split at later
        · exact absurd later (by decide)
        · exact absurd later (by decide)
    | syntactic | semantic => exact List.mem_append_left _ (by decide)
  · intro may
    rw [canRun, Stage.previous?, notBlank]
    rfl

/-- After any sequence of operations the parts of a session fit together; and once a stage ran, the
report succeeds exactly where it counts no error, which is where the last stage to run passed, and
there is at most one warning. -/
theorem perform_consistent (operations : List Operation) :
    (perform operations).Consistent ∧
      ∀ last, (History.of operations).last? = some last →
        let report := (perform operations).report
        report.stage? = some last ∧ (report.success = true ↔ report.errorCount = 0) ∧
          (report.errorCount = 0 ↔ (perform operations).hasPassed last = true) ∧
          report.warningCount ≤ 1 := by
  have faithful := History.of_faithful operations
  rw [← History.of_session]
  generalize History.of operations = history at faithful ⊢
  cases faithful with
  | untouched fresh =>
      exact ⟨untouched_consistent fresh, fun last impossible => by cases impossible⟩
  | @reached session stage checkedWith notBlank reaches same =>
      obtain ⟨source, current, progress⟩ := session
      have settles : progress = settled source checkedWith stage := same
      subst settles
      refine ⟨reached_consistent notBlank reaches current, ?_⟩
      rintro last ⟨⟩
      obtain ⟨success, errors, warnings⟩ := report_counts reaches current
      refine ⟨?_, success, errors.trans ?_, warnings⟩
      · rw [report, settled_last?]
        rfl
      · exact List.contains_iff_mem.symm

end Session

end StagedAnalysis
