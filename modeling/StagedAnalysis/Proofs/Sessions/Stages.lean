import StagedAnalysis.Session
import StagedAnalysis.Proofs.Checking.Reports
import StagedAnalysis.Proofs.Lexing
import StagedAnalysis.Proofs.Reading.Failures
/-!
What a stage leaves in a session.

A stage that runs keeps what the stages before it found, and puts its own findings in the place of
everything else. So the progress behind a stage can be told from the source text, the stages before
it and, for the semantic stage, the options alone: it is the settled progress of that stage, however
often and in whatever order stages ran before.
-/
namespace StagedAnalysis

/-! ### Order of stages -/

namespace Stage

theorem before_lexical (stage : Stage) : stage.before .lexical = false := by
  cases stage <;> rfl

theorem before_self (stage : Stage) : stage.before stage = false := by
  cases stage <;> rfl

theorem before_of_before {first second third : Stage} (earlier : first.before second = true)
    (noLater : third.before second = false) : first.before third = true := by
  simp only [before, decide_eq_true_eq, decide_eq_false_iff_not] at *
  omega

end Stage

namespace Progress

/-! ### Agreement on the earlier stages -/

structure AgreeBefore (stage : Stage) (first second : Progress) : Prop where
  passed : (first.before stage).passed = (second.before stage).passed
  diagnostics : (first.before stage).diagnostics = (second.before stage).diagnostics
  summary : (first.before stage).summary = (second.before stage).summary

variable {stage earlier : Stage} {first second third : Progress}

theorem AgreeBefore.refl (stage : Stage) (progress : Progress) :
    AgreeBefore stage progress progress :=
  ⟨rfl, rfl, rfl⟩

theorem AgreeBefore.trans (firstAgree : AgreeBefore stage first second)
    (secondAgree : AgreeBefore stage second third) : AgreeBefore stage first third :=
  ⟨firstAgree.passed.trans secondAgree.passed, firstAgree.diagnostics.trans secondAgree.diagnostics,
    firstAgree.summary.trans secondAgree.summary⟩

theorem AgreeBefore.mem_passed {other : Stage}
    (agree : AgreeBefore stage first second) (before : other.before stage = true)
    (passed : other ∈ first.passed) : other ∈ second.passed := by
  have kept : other ∈ (first.before stage).passed := List.mem_filter.mpr ⟨passed, before⟩
  rw [agree.passed] at kept
  exact (List.mem_filter.mp kept).1

theorem agreeBefore_lexical (first second : Progress) : AgreeBefore .lexical first second := by
  have none {α : Type} (stageOf : α → Stage) (items : List α) :
      items.filter (fun item => (stageOf item).before .lexical) = [] := by
    refine List.filter_eq_nil_iff.mpr fun item _ => ?_
    rw [Stage.before_lexical]
    exact Bool.false_ne_true
  constructor
  · exact (none id _).trans (none id _).symm
  · exact (none Diagnostic.stage _).trans (none Diagnostic.stage _).symm
  · exact (none Prod.fst _).trans (none Prod.fst _).symm

/-- What is kept for a stage, together with what belongs to the stage itself, is for an earlier one
as good as all that there was. -/
theorem filter_before_append {α : Type} (stageOf : α → Stage) {items own : List α}
    (named : ∀ item ∈ own, stageOf item = stage) (noLater : stage.before earlier = false) :
    (items.filter (fun item => (stageOf item).before stage) ++ own).filter
        (fun item => (stageOf item).before earlier) =
      items.filter fun item => (stageOf item).before earlier := by
  have dropped : own.filter (fun item => (stageOf item).before earlier) = [] := by
    refine List.filter_eq_nil_iff.mpr fun item member => ?_
    rw [named item member, noLater]
    exact Bool.false_ne_true
  rw [List.filter_append, dropped, List.append_nil, List.filter_filter]
  refine List.filter_congr fun item _ => ?_
  cases kept : (stageOf item).before earlier with
  | false => rfl
  | true => rw [Stage.before_of_before kept noLater, Bool.and_self]

end Progress

namespace Session

open Progress (AgreeBefore)

variable {stage earlier : Stage} {session : Session}

/-! ### One stage -/

def after (session : Session) (stage : Stage) : Progress :=
  (session.step stage).2.record (session.step stage).1

theorem run_of_canRun (may : session.canRun stage = true) :
    session.run stage =
      (.ok (session.step stage).1, { session with progress := session.after stage }) := by
  rw [run, if_pos may]
  rfl

theorem run_of_not_canRun (refused : session.canRun stage = false) :
    session.run stage = (.error (refusal stage), session) := by
  rw [run, refused]
  rfl

theorem step_stage (session : Session) (stage : Stage) : (session.step stage).1.stage = stage := by
  cases stage <;> rfl

theorem step_syntactic_of_ok {program : Program}
    (parsed : Program.ofTokens session.tokens = .ok program) :
    session.step .syntactic =
      (.ofDiagnostics .syntactic [] (syntacticSummary (some program)),
        { session.progress.before .syntactic with program? := some program }) := by
  rw [step, syntacticStep, parsed]

theorem step_syntactic_of_error {error : AnalysisError}
    (refused : Program.ofTokens session.tokens = .error error) :
    session.step .syntactic =
      (.ofDiagnostics .syntactic [error.diagnostic .syntactic] (syntacticSummary none),
        { session.progress.before .syntactic with program? := none }) := by
  rw [step, syntacticStep, refused]

theorem step_diagnostics_stage (session : Session) (stage : Stage) :
    ∀ found ∈ (session.step stage).1.diagnostics, found.stage = stage := by
  intro found member
  have own {error : AnalysisError} (fault : error.stage? = some stage) :
      (error.diagnostic stage).stage = stage := by
    rw [AnalysisError.diagnostic, fault, Option.getD_some]
  cases stage with
  | lexical =>
      obtain ⟨error, fault, rfl⟩ := List.mem_map.mp member
      exact own (lexicalErrors_stage? session.source error fault)
  | syntactic =>
      cases parsed : Program.ofTokens session.tokens with
      | ok program =>
          rw [step_syntactic_of_ok parsed] at member
          cases member
      | error error =>
          rw [step_syntactic_of_error parsed] at member
          cases List.mem_singleton.mp member
          exact own (Program.blames_of_ofTokens parsed).stage?
  | semantic =>
      obtain ⟨error, fault, rfl⟩ := List.mem_map.mp member
      refine own ?_
      cases program : session.progress.program? with
      | none =>
          rw [program] at fault
          cases fault
      | some parsed =>
          rw [program] at fault
          exact parsed.check_aboutMeaning session.options.strict error fault

/-- A stage keeps the findings of the stages before it, and of those before an earlier one. -/
theorem after_agrees (session : Session) (noLater : stage.before earlier = false) :
    AgreeBefore earlier (session.after stage) session.progress := by
  have own := session.step_diagnostics_stage stage
  have named := session.step_stage stage
  have kept : (session.step stage).2.passed = (session.progress.before stage).passed ∧
      (session.step stage).2.diagnostics = (session.progress.before stage).diagnostics ∧
      (session.step stage).2.summary = (session.progress.before stage).summary := by
    cases stage <;> exact ⟨rfl, rfl, rfl⟩
  obtain ⟨passed, diagnostics, summary⟩ := kept
  constructor
  · simp only [after, Progress.before, Progress.record, passed, named]
    split
    · exact Progress.filter_before_append id (List.forall_mem_singleton.mpr rfl) noLater
    · have unchanged := @Progress.filter_before_append _ _ _ id session.progress.passed []
        (List.forall_mem_nil _) noLater
      rwa [List.append_nil] at unchanged
  · simp only [after, Progress.before, Progress.record, diagnostics]
    exact Progress.filter_before_append Diagnostic.stage own noLater
  · simp only [after, Progress.before, Progress.record, summary, named]
    exact Progress.filter_before_append Prod.fst (List.forall_mem_singleton.mpr rfl) noLater

/-! ### Settled progress -/

/-- The last stage to run does not matter to what a further outcome makes of the rest. -/
theorem record_congr {first second : Progress} {firstOutcome secondOutcome : StageOutcome}
    (outcome : firstOutcome = secondOutcome) (tokens : first.tokens? = second.tokens?)
    (program : first.program? = second.program?) (passed : first.passed = second.passed)
    (diagnostics : first.diagnostics = second.diagnostics)
    (summary : first.summary = second.summary) :
    first.record firstOutcome = second.record secondOutcome := by
  subst outcome
  rw [Progress.record, Progress.record, tokens, program, passed, diagnostics, summary]

theorem after_lexical {first second : Session} (same : first.source = second.source) :
    first.after .lexical = second.after .lexical := by
  have agree := Progress.agreeBefore_lexical first.progress second.progress
  refine record_congr ?_ ?_ rfl agree.passed agree.diagnostics agree.summary
  · simp only [step, lexicalStep, same]
  · simp only [step, lexicalStep, same]

theorem after_syntactic {first second : Session}
    (sameTokens : first.progress.tokens? = second.progress.tokens?)
    (agree : AgreeBefore .syntactic first.progress second.progress) :
    first.after .syntactic = second.after .syntactic := by
  have tokens : first.tokens = second.tokens := congrArg (Option.getD · []) sameTokens
  refine record_congr ?_ sameTokens ?_ agree.passed agree.diagnostics agree.summary
  · simp only [step, syntacticStep, tokens]
  · simp only [step, syntacticStep, tokens]

theorem after_semantic {first second : Session}
    (sameOptions : first.options = second.options)
    (sameTokens : first.progress.tokens? = second.progress.tokens?)
    (sameProgram : first.progress.program? = second.progress.program?)
    (agree : AgreeBefore .semantic first.progress second.progress) :
    first.after .semantic = second.after .semantic := by
  refine record_congr ?_ sameTokens sameProgram agree.passed agree.diagnostics agree.summary
  simp only [step, semanticStep, sameOptions, sameProgram]

/-- The progress behind a stage that ran behind each of the stages before it, with these options
for the semantic stage. -/
def settled (source : String) (options : Options) : Stage → Progress
  | .lexical => (ofSource source).after .lexical
  | .syntactic =>
    Session.after ⟨source, {}, (ofSource source).after .lexical⟩ .syntactic
  | .semantic =>
    Session.after ⟨source, options,
      Session.after ⟨source, {}, (ofSource source).after .lexical⟩ .syntactic⟩ .semantic

variable {source : String} {options : Options}

theorem settled_semantic (source : String) (options : Options) :
    settled source options .semantic =
      after ⟨source, options, settled source options .syntactic⟩ .semantic :=
  rfl

theorem settled_tokens? (source : String) (options : Options) (stage : Stage) :
    (settled source options stage).tokens? = some (tokenize source) := by
  cases stage <;> rfl

theorem settled_agrees_lexical (source : String) (options : Options) (stage : Stage) :
    AgreeBefore .syntactic (settled source options stage) (settled source options .lexical) := by
  have first := after_agrees ⟨source, {}, settled source options .lexical⟩
    (Stage.before_self .syntactic)
  cases stage with
  | lexical => exact .refl _ _
  | syntactic => exact first
  | semantic =>
      exact (after_agrees ⟨source, options, settled source options .syntactic⟩
        (show Stage.semantic.before .syntactic = false from rfl)).trans first

theorem settled_agrees_syntactic (source : String) (options : Options) :
    AgreeBefore .semantic (settled source options .semantic)
      (settled source options .syntactic) :=
  after_agrees ⟨source, options, settled source options .syntactic⟩ (Stage.before_self .semantic)

/-! ### Passing -/

def Passes (source : String) (options : Options) (stage : Stage) : Prop :=
  stage ∈ (settled source options stage).passed

instance (source : String) (options : Options) (stage : Stage) :
    Decidable (Passes source options stage) :=
  inferInstanceAs (Decidable (_ ∈ _))

theorem mem_after_passed : stage ∈ (session.after stage).passed ↔
    (session.step stage).1.passed = true := by
  have kept : (session.step stage).2.passed = session.progress.passed.filter (·.before stage) := by
    cases stage <;> rfl
  have absent : stage ∉ session.progress.passed.filter (·.before stage) := by
    intro member
    have before := (List.mem_filter.mp member).2
    rw [Stage.before_self] at before
    exact Bool.false_ne_true before
  rw [after, Progress.record, kept, step_stage]
  cases (session.step stage).1.passed with
  | false => simp only [Bool.false_eq_true, if_false, iff_false]; exact absent
  | true => simp

theorem runStages_cons {stages : List Stage} (may : session.canRun stage = true) :
    session.runStages (stage :: stages) =
      if stage ∈ (session.after stage).passed then
        runStages { session with progress := session.after stage } stages
      else (.ok (), { session with progress := session.after stage }) := by
  rw [runStages, run_of_canRun may]
  simp only [mem_after_passed]

theorem runStages_singleton (may : session.canRun stage = true) :
    session.runStages [stage] = (.ok (), { session with progress := session.after stage }) := by
  rw [runStages_cons may]
  split <;> rfl

theorem before_of_mem_after {other : Stage} (passed : other ∈ (session.after stage).passed) :
    other = stage ∨ other.before stage = true := by
  have kept : (session.step stage).2.passed = session.progress.passed.filter (·.before stage) := by
    cases stage <;> rfl
  rw [after, Progress.record, kept, step_stage] at passed
  split at passed
  · rcases List.mem_append.mp passed with earlier | own
    · exact .inr (List.mem_filter.mp earlier).2
    · exact .inl (List.mem_singleton.mp own)
  · exact .inr (List.mem_filter.mp passed).2

/-- The stage at which a run from the start up to `target` stops. -/
def stopsAt (source : String) (options : Options) : Stage → Stage
  | .lexical => .lexical
  | .syntactic => if Passes source options .lexical then .syntactic else .lexical
  | .semantic =>
    if Passes source options .lexical then
      if Passes source options .syntactic then .semantic else .syntactic
    else .lexical

/-- A run from the start leaves the settled progress of the stage that it stops at. -/
theorem runUntil_fresh (notBlank : Text.isBlank source = false) (options : Options)
    (target : Stage) :
    ((ofSource source).withOptions options).runUntil target =
      (.ok (report ⟨source, options, settled source options (stopsAt source options target)⟩),
        ⟨source, options, settled source options (stopsAt source options target)⟩) := by
  have first : canRun ⟨source, options, .fresh⟩ .lexical = true := by
    rw [canRun, Stage.previous?, notBlank]
    rfl
  have firstAfter : after ⟨source, options, .fresh⟩ .lexical = settled source options .lexical :=
    after_lexical rfl
  have second (passed : Passes source options .lexical) :
      canRun ⟨source, options, settled source options .lexical⟩ .syntactic = true :=
    List.contains_iff_mem.mpr passed
  have secondAfter : after ⟨source, options, settled source options .lexical⟩ .syntactic =
      settled source options .syntactic :=
    after_syntactic rfl (.refl _ _)
  have third (passed : Passes source options .syntactic) :
      canRun ⟨source, options, settled source options .syntactic⟩ .semantic = true :=
    List.contains_iff_mem.mpr passed
  have stopped : runStages ⟨source, options, .fresh⟩ (Stage.all.filter (!target.before ·)) =
      (.ok (), ⟨source, options, settled source options (stopsAt source options target)⟩) := by
    cases target with
    | lexical =>
        change runStages _ [.lexical] = _
        rw [runStages_singleton first, firstAfter]
        rfl
    | syntactic =>
        change runStages _ [.lexical, .syntactic] = _
        rw [runStages_cons first, firstAfter, stopsAt]
        by_cases passed : Passes source options .lexical
        · rw [if_pos passed]
          refine (if_pos passed).trans ?_
          rw [runStages_singleton (second passed), secondAfter]
        · rw [if_neg passed]
          exact if_neg passed
    | semantic =>
        change runStages _ [.lexical, .syntactic, .semantic] = _
        rw [runStages_cons first, firstAfter, stopsAt]
        by_cases passed : Passes source options .lexical
        · rw [if_pos passed]
          refine (if_pos passed).trans ?_
          rw [runStages_cons (second passed), secondAfter]
          by_cases parsed : Passes source options .syntactic
          · rw [if_pos parsed]
            refine (if_pos parsed).trans ?_
            rw [runStages_singleton (third parsed)]
            rfl
          · rw [if_neg parsed]
            exact if_neg parsed
        · rw [if_neg passed]
          exact if_neg passed
  unfold runUntil
  dsimp only [withOptions, ofSource]
  rw [stopped]
  rfl

theorem passes_lexical_of_stopsAt (reaches : stopsAt source options stage = stage)
    (later : stage ≠ .lexical) : Passes source options .lexical := by
  cases stage with
  | lexical => exact absurd rfl later
  | syntactic | semantic =>
      by_cases passed : Passes source options .lexical
      · exact passed
      · rw [stopsAt, if_neg passed] at reaches
        cases reaches

end Session

end StagedAnalysis
