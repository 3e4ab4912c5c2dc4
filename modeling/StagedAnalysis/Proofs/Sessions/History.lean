import StagedAnalysis.Proofs.Sessions.Stages
/-!
Sessions under any sequence of operations.

A history goes with a session: which stage ran last since the source text was set, and with which
options the semantic stage was last run. It is kept beside the session and never read by it. What
can be seen of a session is what a new session over the same text shows that was run up to the last
stage of the history; how it got there leaves no trace.
-/
namespace StagedAnalysis

namespace Session

/-! ### Operations -/

inductive Operation where
  | create (source : String)
  | withOptions (options : Options)
  | load (source : String)
  | clear
  | run (stage : Stage)
  | runUntil (target : Stage)
  | runAll

/-- The session behind an operation, whether the operation is refused or not. -/
def Operation.apply : Operation → Session → Session
  | create source, _ => .ofSource source
  | withOptions options, session => session.withOptions options
  | load source, session => session.load source
  | clear, session => session.clear
  | run stage, session => (session.run stage).2
  | runUntil target, session => (session.runUntil target).2
  | runAll, session => session.runAll.2

def perform (operations : List Operation) : Session :=
  operations.foldl (fun session operation => operation.apply session) {}

structure Running where
  stage : Stage
  options : Options

/-- The stages that run when all stages of a list are asked for in order. -/
def running (session : Session) : List Stage → List Running
  | [] => []
  | stage :: stages =>
    match session.run stage with
    | (.error _, _) => []
    | (.ok outcome, behind) =>
      ⟨stage, session.options⟩ :: if outcome.passed then behind.running stages else []

def Operation.running : Operation → Session → List Running
  | run stage, session => session.running [stage]
  | runUntil target, session => session.running (Stage.all.filter (!target.before ·))
  | runAll, session => session.running (Stage.all.filter (!Stage.semantic.before ·))
  | _, _ => []

def Operation.setsSource : Operation → Bool
  | create _ | load _ | clear => true
  | _ => false

/-! ### Histories -/

structure History where
  session : Session := {}
  last? : Option Stage := none
  checkedWith : Options := {}

namespace History

def note (history : History) (running : Running) : History :=
  { history with
    last? := some running.stage
    checkedWith :=
      if running.stage = .semantic then running.options else history.checkedWith }

def extend (history : History) (operation : Operation) : History :=
  (operation.running history.session).foldl note
    { history with
      session := operation.apply history.session
      last? := if operation.setsSource then none else history.last? }

def of (operations : List Operation) : History :=
  operations.foldl extend {}

/-- The progress of the session is what its history says: nothing, or the settled progress of the
last stage, which a run from the start would reach as well. -/
inductive Faithful : History → Prop
  | untouched {session : Session} {checkedWith : Options} (fresh : session.progress = .fresh) :
      Faithful ⟨session, none, checkedWith⟩
  | reached {session : Session} {stage : Stage} {checkedWith : Options}
      (notBlank : Text.isBlank session.source = false)
      (reaches : stopsAt session.source checkedWith stage = stage)
      (same : session.progress = settled session.source checkedWith stage) :
      Faithful ⟨session, some stage, checkedWith⟩

end History

open Progress (AgreeBefore)

variable {stage : Stage} {session : Session} {last? : Option Stage} {checkedWith : Options}

/-! ### One stage -/

theorem lexical_faithful (may : session.canRun .lexical = true) :
    History.Faithful (History.note
      ⟨{ session with progress := session.after .lexical }, last?, checkedWith⟩
      ⟨.lexical, session.options⟩) := by
  have notBlank : Text.isBlank session.source = false := by
    rw [canRun, Stage.previous?] at may
    simpa using may
  exact .reached notBlank rfl (after_lexical rfl)

theorem syntactic_faithful (faithful : History.Faithful ⟨session, last?, checkedWith⟩)
    (may : session.canRun .syntactic = true) :
    History.Faithful (History.note
      ⟨{ session with progress := session.after .syntactic }, last?, checkedWith⟩
      ⟨.syntactic, session.options⟩) := by
  have passed : Stage.lexical ∈ session.progress.passed := List.contains_iff_mem.mp may
  cases faithful with
  | untouched fresh =>
      rw [fresh] at passed
      cases passed
  | @reached _ stage _ notBlank reaches same =>
      have agree := settled_agrees_lexical session.source checkedWith stage
      rw [same] at passed
      have earlier : Passes session.source checkedWith .lexical :=
        agree.mem_passed rfl passed
      refine .reached notBlank (if_pos earlier) ?_
      refine after_syntactic ?_ (same ▸ agree)
      rw [same, settled_tokens?]
      rfl

theorem semantic_faithful (faithful : History.Faithful ⟨session, last?, checkedWith⟩)
    (may : session.canRun .semantic = true) :
    History.Faithful (History.note
      ⟨{ session with progress := session.after .semantic }, last?, checkedWith⟩
      ⟨.semantic, session.options⟩) := by
  have passed : Stage.syntactic ∈ session.progress.passed := List.contains_iff_mem.mp may
  cases faithful with
  | untouched fresh =>
      rw [fresh] at passed
      cases passed
  | @reached _ stage _ notBlank reaches same =>
      rw [same] at passed
      have parsed : Passes session.source checkedWith .syntactic ∧ stage ≠ .lexical := by
        cases stage with
        | lexical =>
            rcases before_of_mem_after passed with impossible | impossible <;> cases impossible
        | syntactic => exact ⟨passed, by simp⟩
        | semantic =>
            have agree := settled_agrees_syntactic session.source checkedWith
            exact ⟨agree.mem_passed rfl passed, by simp⟩
      have earlier := passes_lexical_of_stopsAt reaches parsed.2
      have sameTokens : session.progress.tokens? =
          (settled session.source checkedWith .syntactic).tokens? := by
        rw [same, settled_tokens?, settled_tokens?]
      refine .reached notBlank ((if_pos earlier).trans (if_pos parsed.1)) ?_
      refine after_semantic rfl sameTokens ?_ ?_
      · rw [same]
        cases stage with
        | lexical => exact absurd rfl parsed.2
        | syntactic => rfl
        | semantic => rfl
      · rw [same]
        cases stage with
        | lexical => exact absurd rfl parsed.2
        | syntactic => exact .refl _ _
        | semantic => exact settled_agrees_syntactic session.source checkedWith

theorem run_faithful (faithful : History.Faithful ⟨session, last?, checkedWith⟩)
    (may : session.canRun stage = true) :
    History.Faithful (History.note
      ⟨{ session with progress := session.after stage }, last?, checkedWith⟩
      ⟨stage, session.options⟩) := by
  cases stage with
  | lexical => exact lexical_faithful may
  | syntactic => exact syntactic_faithful faithful may
  | semantic => exact semantic_faithful faithful may

/-! ### Sequences of stages and of operations -/

theorem runStages_faithful (stages : List Stage)
    (faithful : History.Faithful ⟨session, last?, checkedWith⟩) :
    History.Faithful ((session.running stages).foldl History.note
      ⟨(session.runStages stages).2, last?, checkedWith⟩) := by
  induction stages generalizing session last? checkedWith with
  | nil => exact faithful
  | cons stage stages inductionHypothesis =>
      rw [running, runStages]
      cases may : session.canRun stage with
      | false =>
          rw [run_of_not_canRun may]
          exact faithful
      | true =>
          have behind := run_faithful faithful may
          rw [run_of_canRun may]
          dsimp only
          split
          · exact inductionHypothesis behind
          · exact behind

theorem run_eq_runStages (session : Session) (stage : Stage) :
    (session.run stage).2 = (session.runStages [stage]).2 := by
  rw [runStages]
  rcases session.run stage with ⟨error | outcome, behind⟩
  · rfl
  · dsimp only
    split <;> rfl

theorem runUntil_eq_runStages (session : Session) (target : Stage) :
    (session.runUntil target).2 =
      (session.runStages (Stage.all.filter (!target.before ·))).2 := by
  rw [runUntil]

theorem History.extend_faithful {history : History} (faithful : history.Faithful)
    (operation : Operation) : (history.extend operation).Faithful := by
  obtain ⟨session, last?, checkedWith⟩ := history
  cases operation with
  | create source => exact .untouched rfl
  | withOptions options =>
      -- new options count from the next run of the semantic stage on
      cases faithful with
      | untouched fresh => exact .untouched fresh
      | reached notBlank reaches same => exact .reached notBlank reaches same
  | load source => exact .untouched rfl
  | clear => exact .untouched rfl
  | run stage =>
      have behind := runStages_faithful [stage] faithful
      rw [← run_eq_runStages] at behind
      exact behind
  | runUntil target =>
      have behind := runStages_faithful (Stage.all.filter (!target.before ·)) faithful
      rw [← runUntil_eq_runStages] at behind
      exact behind
  | runAll =>
      have behind := runStages_faithful (Stage.all.filter (!Stage.semantic.before ·)) faithful
      rw [← runUntil_eq_runStages] at behind
      exact behind

theorem History.of_faithful (operations : List Operation) : (History.of operations).Faithful := by
  have onward {history : History} (faithful : history.Faithful) :
      (operations.foldl extend history).Faithful := by
    induction operations generalizing history with
    | nil => exact faithful
    | cons operation operations inductionHypothesis =>
        exact inductionHypothesis (extend_faithful faithful operation)
  exact onward (.untouched rfl)

theorem History.foldl_note_session (history : History) (runs : List Running) :
    (runs.foldl note history).session = history.session := by
  induction runs generalizing history with
  | nil => rfl
  | cons running runs inductionHypothesis =>
      rw [List.foldl_cons, inductionHypothesis]
      rfl

theorem History.of_session (operations : List Operation) :
    (History.of operations).session = perform operations := by
  have onward (history : History) :
      (operations.foldl extend history).session =
        operations.foldl (fun session operation => operation.apply session) history.session := by
    induction operations generalizing history with
    | nil => rfl
    | cons operation operations inductionHypothesis =>
        rw [List.foldl_cons, inductionHypothesis, List.foldl_cons, extend, foldl_note_session]
  exact onward {}

/-! ### What can be seen -/

structure LooksLike (first second : Session) : Prop where
  tokens : first.tokens = second.tokens
  diagnostics : first.diagnostics = second.diagnostics
  hasPassed : ∀ stage, first.hasPassed stage = second.hasPassed stage
  report : first.report = second.report

theorem looksLike_of_progress {first second : Session} (same : first.progress = second.progress) :
    first.LooksLike second := by
  obtain ⟨source, options, progress⟩ := first
  cases same
  exact ⟨rfl, rfl, fun _ => rfl, rfl⟩

/-- What can be seen of a session does not depend on its history: it is what a new session over the
same text shows, as it is or, where stages ran, after a run up to the last of them with the options
with which the semantic stage was last run. -/
theorem perform_looksLike_fresh (operations : List Operation) :
    let session := perform operations
    let history := History.of operations
    let fresh := ofSource session.source
    history.last? = none ∧ session.LooksLike fresh ∨
      ∃ stage, history.last? = some stage ∧
        session.LooksLike ((fresh.withOptions history.checkedWith).runUntil stage).2 := by
  have faithful := History.of_faithful operations
  dsimp only
  rw [← History.of_session]
  generalize History.of operations = history at faithful ⊢
  cases faithful with
  | untouched fresh => exact .inl ⟨rfl, looksLike_of_progress fresh⟩
  | @reached session stage checkedWith notBlank reaches same =>
      refine .inr ⟨stage, rfl, looksLike_of_progress ?_⟩
      dsimp only
      rw [runUntil_fresh notBlank, reaches]
      exact same

end Session

end StagedAnalysis
