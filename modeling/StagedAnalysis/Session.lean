import StagedAnalysis.Diagnosis
import StagedAnalysis.Report
import StagedAnalysis.Text.Blank
/-!
A session holds one source text and takes it through the stages. A stage may run once the stage
before it has passed, and the first one if the text is not blank. Running a stage again discards
what the later stages found. A run that is refused changes nothing.
-/
namespace StagedAnalysis

structure Options where
  /-- An int never goes where a float is wanted. -/
  strict : Bool := false
  deriving DecidableEq

structure StageOutcome where
  stage : Stage
  passed : Bool
  diagnostics : List Diagnostic
  summary : String
  deriving DecidableEq

structure Progress where
  tokens? : Option (List Token) := none
  program? : Option Program := none
  passed : List Stage := []
  diagnostics : List Diagnostic := []
  summary : List (Stage × String) := []
  last? : Option (Stage × Bool) := none

namespace Progress

def fresh : Progress := {}

/-- The results of the stages before `stage`, as they are needed to run it. -/
def before (progress : Progress) (stage : Stage) : Progress :=
  { progress with
    passed := progress.passed.filter (·.before stage)
    diagnostics := progress.diagnostics.filter (·.stage.before stage)
    summary := progress.summary.filter (·.1.before stage) }

def record (progress : Progress) (outcome : StageOutcome) : Progress :=
  { progress with
    passed := if outcome.passed then progress.passed ++ [outcome.stage] else progress.passed
    diagnostics := progress.diagnostics ++ outcome.diagnostics
    summary := progress.summary ++ [(outcome.stage, outcome.summary)]
    last? := some (outcome.stage, outcome.passed) }

end Progress

/-- A stage passes if it found no error; warnings do not count. -/
def StageOutcome.ofDiagnostics (stage : Stage) (diagnostics : List Diagnostic) (summary : String) :
    StageOutcome :=
  ⟨stage, !diagnostics.any (·.isError), diagnostics, summary⟩

structure Session where
  source : String := ""
  options : Options := {}
  progress : Progress := .fresh

namespace Session

def ofSource (source : String) : Session :=
  { source := source }

/-- Changes the options and keeps the progress. -/
def withOptions (session : Session) (options : Options) : Session :=
  { session with options := options }

/-- Takes another source text; the progress starts anew. -/
def load (session : Session) (source : String) : Session :=
  { session with source := source, progress := .fresh }

def clear (session : Session) : Session :=
  session.load ""

def tokens (session : Session) : List Token :=
  session.progress.tokens?.getD []

def diagnostics (session : Session) : List Diagnostic :=
  session.progress.diagnostics

def hasPassed (session : Session) (stage : Stage) : Bool :=
  session.progress.passed.contains stage

def canRun (session : Session) (stage : Stage) : Bool :=
  match stage.previous? with
  | none => !Text.isBlank session.source
  | some previous => session.hasPassed previous

def refusal (stage : Stage) : AnalysisError :=
  match stage.previous? with
  | none => .emptySource
  | some previous => .stageOrder stage previous

def report (session : Session) : Report where
  success := (session.progress.last?.map (·.2)).getD false
  stage? := session.progress.last?.map (·.1)
  passed := session.progress.passed
  tokenCount := UInt64.ofNat session.tokens.length
  diagnostics := session.progress.diagnostics
  summary := session.progress.summary.map (·.2)

/-! ### Running stages -/

def lexicalSummary (tokens : List Token) : String :=
  if isValidLexically tokens then s!"Lexical Analysis Completed.\nTokens: {tokens.length}"
  else "Lexical analysis FAILED!\nUnknown tokens found."

def syntacticSummary (program? : Option Program) : String :=
  if program?.isSome then "Syntax Analysis Completed."
  else "Syntax analysis FAILED!\nInvalid syntax."

def semanticSummary (errors : List AnalysisError) : String :=
  if errors.isEmpty then
    "Semantic Analysis Completed.\n\nALL ANALYSES PASSED! COMPILATION SUCCESSFUL!"
  else "Semantic analysis FAILED!\nType mismatch or duplicate var."

def lexicalStep (session : Session) : StageOutcome × Progress :=
  let tokens := tokenize session.source
  let outcome :=
    StageOutcome.ofDiagnostics .lexical (lexicalDiagnostics session.source) (lexicalSummary tokens)
  (outcome, { session.progress.before .lexical with tokens? := some tokens, program? := none })

def syntacticStep (session : Session) : StageOutcome × Progress :=
  let (program?, diagnostics) :=
    match Program.ofTokens session.tokens with
    | .ok program => (some program, [])
    | .error error => (none, [error.diagnostic .syntactic])
  let outcome := StageOutcome.ofDiagnostics .syntactic diagnostics (syntacticSummary program?)
  (outcome, { session.progress.before .syntactic with program? := program? })

def semanticStep (session : Session) : StageOutcome × Progress :=
  let errors := (session.progress.program?.map (·.check session.options.strict)).getD []
  let outcome :=
    StageOutcome.ofDiagnostics .semantic (errors.map (·.diagnostic .semantic))
      (semanticSummary errors)
  (outcome, session.progress.before .semantic)

def step (session : Session) : Stage → StageOutcome × Progress
  | .lexical => session.lexicalStep
  | .syntactic => session.syntacticStep
  | .semantic => session.semanticStep

def run (session : Session) (stage : Stage) : Except AnalysisError StageOutcome × Session :=
  if session.canRun stage then
    let (outcome, progress) := session.step stage
    (.ok outcome, { session with progress := progress.record outcome })
  else (.error (refusal stage), session)

/-- Runs stages in order up to the first one that is refused or fails. -/
def runStages (session : Session) : List Stage → Except AnalysisError Unit × Session
  | [] => (.ok (), session)
  | stage :: stages =>
    match session.run stage with
    | (.error error, same) => (.error error, same)
    | (.ok outcome, behind) => if outcome.passed then behind.runStages stages else (.ok (), behind)

def runUntil (session : Session) (target : Stage) : Except AnalysisError Report × Session :=
  let (result, behind) := session.runStages (Stage.all.filter (!target.before ·))
  (result.map fun _ => behind.report, behind)

def runAll (session : Session) : Except AnalysisError Report × Session :=
  session.runUntil .semantic

end Session

end StagedAnalysis
