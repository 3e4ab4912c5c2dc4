import StagedAnalysis.Proofs.Sessions.Invariants
/-!
When a session refuses to run.

One stage is refused exactly where it may not run. A run up to a target is refused exactly where the
source text is blank: the lexical stage asks for nothing but a text, and each later stage is only
begun when the one before it has just passed, so no stage is ever asked for out of order. A refusal
leaves the session as it was. A run that is not refused does not depend on the session at all but
for its text and its options, and its report says how far it came.
-/
namespace StagedAnalysis

namespace Session

variable {session : Session} {source : String} {options : Options} {stage target : Stage}

/-! ### What the stages gave -/

/-- What the stages gave that ran when all stages of a list are asked for in order. -/
def outcomes (session : Session) : List Stage → List StageOutcome
  | [] => []
  | stage :: stages =>
    match session.run stage with
    | (.error _, _) => []
    | (.ok outcome, behind) => outcome :: if outcome.passed then behind.outcomes stages else []

/-- Of the stages that ran all but the last one passed, and the session remembers the last one. -/
theorem runStages_outcomes {stages : List Stage} (asked : stages ≠ [])
    (ran : (session.runStages stages).1 = .ok ()) :
    ∃ earlier last, session.outcomes stages = earlier ++ [last] ∧
      (∀ outcome ∈ earlier, outcome.passed = true) ∧
      (session.runStages stages).2.progress.last? = some (last.stage, last.passed) := by
  induction stages generalizing session with
  | nil => exact absurd rfl asked
  | cons stage stages inductionHypothesis =>
      rw [runStages] at ran ⊢
      rw [outcomes]
      cases may : session.canRun stage with
      | false =>
          rw [run_of_not_canRun may] at ran
          cases ran
      | true =>
          have remembered : (session.after stage).last? =
              some ((session.step stage).1.stage, (session.step stage).1.passed) := by
            rw [after_last?, step_stage]
          rw [run_of_canRun may] at ran ⊢
          dsimp only at ran ⊢
          cases passed : (session.step stage).1.passed with
          | false => exact ⟨[], (session.step stage).1, rfl, List.forall_mem_nil _, remembered⟩
          | true =>
              simp only [if_pos passed, if_true] at ran ⊢
              cases stages with
              | nil => exact ⟨[], (session.step stage).1, rfl, List.forall_mem_nil _, remembered⟩
              | cons next others =>
                  obtain ⟨earlier, last, shape, allPassed, lastRan⟩ :=
                    inductionHypothesis (by simp) ran
                  refine ⟨(session.step stage).1 :: earlier, last, ?_, ?_, lastRan⟩
                  · rw [shape, List.cons_append]
                  · exact List.forall_mem_cons.mpr ⟨passed, allPassed⟩

/-! ### One stage -/

theorem run_refused_iff (session : Session) (stage : Stage) :
    (∃ error, (session.run stage).1 = .error error) ↔ session.canRun stage = false := by
  cases may : session.canRun stage with
  | false =>
      rw [run_of_not_canRun may]
      exact iff_of_true ⟨_, rfl⟩ rfl
  | true =>
      rw [run_of_canRun may]
      exact iff_of_false (by simp) (by simp)

theorem refusal_eq (stage : Stage) :
    stage = .lexical ∧ refusal stage = .emptySource ∨
      ∃ earlier, stage.previous? = some earlier ∧ refusal stage = .stageOrder stage earlier := by
  cases stage with
  | lexical => exact .inl ⟨rfl, rfl⟩
  | syntactic => exact .inr ⟨.lexical, rfl, rfl⟩
  | semantic => exact .inr ⟨.syntactic, rfl, rfl⟩

theorem run_of_refused {error : AnalysisError} (refused : (session.run stage).1 = .error error) :
    error = refusal stage ∧ (session.run stage).2 = session := by
  have cannot := (run_refused_iff session stage).mp ⟨error, refused⟩
  rw [run_of_not_canRun cannot] at refused ⊢
  exact ⟨(Except.error.inj refused).symm, rfl⟩

/-! ### Runs up to a target -/

theorem upTo_eq_cons (target : Stage) :
    ∃ later, Stage.all.filter (!target.before ·) = .lexical :: later := by
  cases target <;> exact ⟨_, rfl⟩

theorem upTo_ne_nil (target : Stage) : Stage.all.filter (!target.before ·) ≠ [] := by
  obtain ⟨later, shape⟩ := upTo_eq_cons target
  rw [shape]
  exact List.cons_ne_nil _ _

theorem runUntil_eq (session : Session) (target : Stage) :
    session.runUntil target =
      let ran := session.runStages (Stage.all.filter (!target.before ·))
      (ran.1.map fun _ => ran.2.report, ran.2) :=
  rfl

theorem runUntil_of_blank (blank : Text.isBlank session.source = true) (target : Stage) :
    session.runUntil target = (.error .emptySource, session) := by
  have refused : session.canRun .lexical = false := by
    rw [canRun, Stage.previous?, blank]
    rfl
  obtain ⟨later, shape⟩ := upTo_eq_cons target
  rw [runUntil, shape, runStages, run_of_not_canRun refused]
  rfl

/-- A run from the first stage on does not see what ran before it. -/
theorem runUntil_eq_fresh (notBlank : Text.isBlank session.source = false) (target : Stage) :
    session.runUntil target =
      ((ofSource session.source).withOptions session.options).runUntil target := by
  have may {progress : Progress} :
      canRun ⟨session.source, session.options, progress⟩ .lexical = true := by
    rw [canRun, Stage.previous?, notBlank]
    rfl
  have same : session.after .lexical =
      after ⟨session.source, session.options, .fresh⟩ .lexical := after_lexical rfl
  obtain ⟨later, shape⟩ := upTo_eq_cons target
  have stages : session.runStages (.lexical :: later) =
      runStages ⟨session.source, session.options, .fresh⟩ (.lexical :: later) := by
    rw [runStages_cons may, runStages_cons may, same]
  rw [runUntil, runUntil, shape, stages]
  rfl

theorem runUntil_of_notBlank (notBlank : Text.isBlank session.source = false) (target : Stage) :
    let stop := stopsAt session.source session.options target
    let behind := ⟨session.source, session.options, settled session.source session.options stop⟩
    session.runUntil target = (.ok (report behind), behind) :=
  (runUntil_eq_fresh notBlank target).trans (runUntil_fresh notBlank session.options target)

theorem runUntil_refused_iff (session : Session) (target : Stage) :
    (∃ error, (session.runUntil target).1 = .error error) ↔
      Text.isBlank session.source = true := by
  cases blank : Text.isBlank session.source with
  | true =>
      rw [runUntil_of_blank blank]
      exact iff_of_true ⟨_, rfl⟩ rfl
  | false =>
      rw [runUntil_of_notBlank blank]
      exact iff_of_false (by simp) (by simp)

/-- A run stops at its target, or at a stage that does not pass. -/
theorem stopsAt_eq_or_fails (source : String) (options : Options) (target : Stage) :
    stopsAt source options target = target ∨
      ¬Passes source options (stopsAt source options target) ∧
        (stopsAt source options target).before target = true := by
  by_cases passed : Passes source options .lexical
  · cases target with
    | lexical => exact .inl rfl
    | syntactic => exact .inl (if_pos passed)
    | semantic =>
        rw [stopsAt, if_pos passed]
        by_cases parsed : Passes source options .syntactic
        · exact .inl (if_pos parsed)
        · rw [if_neg parsed]
          exact .inr ⟨parsed, rfl⟩
  · cases target with
    | lexical => exact .inl rfl
    | syntactic | semantic =>
        rw [stopsAt, if_neg passed]
        exact .inr ⟨passed, rfl⟩

/-- All stages up to the target pass exactly where the stage passes at which the run stops. -/
theorem settled_passed_eq_upTo_iff (source : String) (options : Options) (target : Stage) :
    (settled source options (stopsAt source options target)).passed =
        Stage.all.filter (!target.before ·) ↔
      Passes source options (stopsAt source options target) := by
  have reaches := stopsAt_stopsAt source options target
  rw [settled_passed reaches]
  rcases stopsAt_eq_or_fails source options target with same | ⟨fails, earlier⟩
  · rw [same]
    by_cases passes : Passes source options target
    · rw [if_pos passes]
      refine iff_of_true ?_ passes
      cases target <;> rfl
    · rw [if_neg passes]
      refine iff_of_false ?_ passes
      cases target <;> decide
  · rw [if_neg fails, List.append_nil]
    refine iff_of_false ?_ fails
    revert earlier
    generalize stopsAt source options target = stop
    cases target <;> cases stop <;> decide

/-- The report of a run is on the last stage that ran, which is the first that did not pass, if there
is any. -/
theorem report_of_runUntil {report : Report} (ran : (session.runUntil target).1 = .ok report) :
    ∃ last, report.stage? = some last.stage ∧ report.success = last.passed ∧
      (last.passed = false → (session.outcomes (Stage.all.filter (!target.before ·))).find?
        (!·.passed) = some last) := by
  rw [runUntil_eq] at ran
  generalize shape : session.runStages (Stage.all.filter (!target.before ·)) = behind at ran
  obtain ⟨result, behind⟩ := behind
  cases result with
  | error error => cases ran
  | ok done =>
      cases ran
      obtain ⟨earlier, last, asked, allPassed, remembered⟩ :=
        runStages_outcomes (upTo_ne_nil target) (congrArg Prod.fst shape)
      rw [shape] at remembered
      refine ⟨last, ?_, ?_, fun fails => ?_⟩
      · rw [Session.report, remembered]
        rfl
      · rw [Session.report, remembered]
        rfl
      · have none : earlier.find? (!·.passed) = none := by
          simpa [List.find?_eq_none] using allPassed
        rw [asked, List.find?_append, none, Option.none_or, List.find?_singleton, fails]
        rfl

/-- A session refuses exactly what it may not run, and a refusal changes nothing. One stage is
refused for want of a source text or of the stage before it. A run up to a target is refused only
for want of a source text, whatever the session was used for before; otherwise it succeeds exactly
if all stages up to the target pass, and where it does not, its report names the first stage that
failed, and the stages that passed are those before it. -/
theorem refuses_exactly (session : Session) :
    (∀ stage,
      ((∃ error, (session.run stage).1 = .error error) ↔ session.canRun stage = false) ∧
      ∀ error, (session.run stage).1 = .error error →
        (stage = .lexical ∧ error = .emptySource ∨
          ∃ earlier, stage.previous? = some earlier ∧ error = .stageOrder stage earlier) ∧
        (session.run stage).2 = session) ∧
    ∀ target,
      ((∃ error, (session.runUntil target).1 = .error error) ↔
        Text.isBlank session.source = true) ∧
      (∀ error, (session.runUntil target).1 = .error error →
        error = .emptySource ∧ (session.runUntil target).2 = session) ∧
      ∀ report, (session.runUntil target).1 = .ok report →
        let upTo := Stage.all.filter (!target.before ·)
        (report.success = true ↔ report.passed = upTo) ∧
        (report.success = false → ∃ failed,
          (session.outcomes upTo).find? (!·.passed) = some failed ∧
          report.stage? = some failed.stage ∧
          report.passed = Stage.all.filter (·.before failed.stage)) := by
  refine ⟨fun stage => ⟨run_refused_iff session stage, ?_⟩,
    fun target => ⟨runUntil_refused_iff session target, ?_, ?_⟩⟩
  · intro error refused
    obtain ⟨rfl, unchanged⟩ := run_of_refused refused
    exact ⟨refusal_eq stage, unchanged⟩
  · intro error refused
    have blank := (runUntil_refused_iff session target).mp ⟨error, refused⟩
    rw [runUntil_of_blank blank] at refused ⊢
    exact ⟨(Except.error.inj refused).symm, rfl⟩
  · intro report ran
    have notBlank : Text.isBlank session.source = false := by
      rw [← Bool.not_eq_true, ← runUntil_refused_iff session target, ran]
      simp
    have settles : report = Session.report ⟨session.source, session.options,
        settled session.source session.options
          (stopsAt session.source session.options target)⟩ := by
      rw [runUntil_of_notBlank notBlank] at ran
      exact (Except.ok.inj ran).symm
    have succeeds : report.success = true ↔
        Passes session.source session.options (stopsAt session.source session.options target) := by
      rw [settles]
      exact report_settled_success _ _ _
    have passed := settled_passed (stopsAt_stopsAt session.source session.options target)
    refine ⟨succeeds.trans ?_, fun unsuccessful => ?_⟩
    · rw [settles]
      exact (settled_passed_eq_upTo_iff _ _ _).symm
    · obtain ⟨last, stage, success, found⟩ := report_of_runUntil ran
      have fails := mt succeeds.mpr (by rw [unsuccessful]; exact Bool.false_ne_true)
      have stop : stopsAt session.source session.options target = last.stage := by
        rw [settles, Session.report, settled_last?] at stage
        exact Option.some.inj stage
      refine ⟨last, found (success.symm.trans unsuccessful), stage, ?_⟩
      rw [settles, ← stop]
      exact passed.trans (by rw [if_neg fails, List.append_nil])

end Session

end StagedAnalysis
