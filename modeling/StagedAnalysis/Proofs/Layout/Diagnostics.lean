import StagedAnalysis.Proofs.Layout.Relocation
import StagedAnalysis.Proofs.Lexing.Flaws
/-!
What diagnostics say apart from their places.

The stage, the severity, the code and the suggestion of a diagnostic do not change when its fault
is moved; a message may name the place of an earlier declaration. What tokenizing finds goes with
the unknown tokens wherever they are. Only the warning about a comment that is never closed is not
told by any token, so it is left out of account.
-/
namespace StagedAnalysis

/-! ### Diagnostics without places -/

namespace Diagnostic

structure Gist where
  stage : Stage
  severity : Severity
  code : String
  suggestion? : Option String
  deriving DecidableEq

def gist (found : Diagnostic) : Gist :=
  ⟨found.stage, found.severity, found.code, found.suggestion?⟩

/-- What the diagnostics say but for those about a comment that is never closed. -/
def gists (diagnostics : List Diagnostic) : List Gist :=
  (diagnostics.filter (·.code != "L004")).map (·.gist)

theorem gists_append (first second : List Diagnostic) :
    gists (first ++ second) = gists first ++ gists second := by
  rw [gists, List.filter_append, List.map_append, gists, gists]

theorem gists_eq_filter (diagnostics : List Diagnostic) :
    gists diagnostics = (diagnostics.map (·.gist)).filter (·.code != "L004") := by
  rw [gists, List.filter_map]
  rfl

theorem gists_before (diagnostics : List Diagnostic) (stage : Stage) :
    gists (diagnostics.filter (·.stage.before stage)) =
      (gists diagnostics).filter (·.stage.before stage) := by
  rw [gists, gists, List.filter_map, List.filter_filter, List.filter_filter]
  simp only [Bool.and_comm]
  rfl

theorem any_isError_of_gists {first second : List Diagnostic}
    (same : first.map (·.gist) = second.map (·.gist)) :
    first.any (·.isError) = second.any (·.isError) := by
  have severe := congrArg (List.any · (·.severity == .error)) same
  rw [List.any_map, List.any_map] at severe
  exact severe

end Diagnostic

theorem AnalysisError.gist_relocate {relocation : Relocation} (error : AnalysisError)
    (stage : Stage) :
    ((error.relocate relocation).diagnostic stage).gist = (error.diagnostic stage).gist := by
  cases error <;> rfl

/-- Faults that differ in their places alone say the same. -/
theorem gist_of_collapse {first second : List AnalysisError}
    (same : first.map (·.relocate .collapse) = second.map (·.relocate .collapse)) (stage : Stage) :
    (first.map (·.diagnostic stage)).map (·.gist) =
      (second.map (·.diagnostic stage)).map (·.gist) := by
  have gists := congrArg (List.map fun error => (error.diagnostic stage).gist) same
  rw [List.map_map, List.map_map] at gists
  rw [List.map_map, List.map_map]
  simpa only [Function.comp_def, AnalysisError.gist_relocate] using gists

theorem AnalysisError.isWarning_eq (error : AnalysisError) :
    error.isWarning = (error.code == "L004") := by
  cases error <;> rfl

/-! ### Tokenizing -/

section Tokens

variable {relocation : Relocation}

theorem isValidLexically_relocate (tokens : List Token) :
    isValidLexically (tokens.map (·.relocate relocation)) = isValidLexically tokens := by
  rw [isValidLexically, List.any_map]
  rfl

theorem Reports.relocate {token : Token} {error : AnalysisError} (reports : Reports token error) :
    Reports (token.relocate relocation) (error.relocate relocation) := by
  cases reports with
  | unterminatedString shape =>
      exact @Reports.unterminatedString (token.relocate relocation) _ shape
  | malformedNumber shape isDigit =>
      exact @Reports.malformedNumber (token.relocate relocation) _ _ shape isDigit
  | unknownCharacter shape noQuote noDigit =>
      exact @Reports.unknownCharacter (token.relocate relocation) _ shape noQuote noDigit

/-- The lexeme of an unknown token decides what is reported. -/
theorem reports_rightUnique : Relator.RightUnique Reports := by
  intro token error other reports others
  have noDigit : ¬Char.isDigit '"' = true := by decide
  cases reports with
  | unterminatedString shape =>
      cases others with
      | unterminatedString _ => rfl
      | malformedNumber again isDigit =>
          cases shape.symm.trans again
          exact absurd isDigit noDigit
      | unknownCharacter again noQuote _ =>
          cases shape.symm.trans again
          exact absurd rfl noQuote
  | malformedNumber shape isDigit =>
      cases others with
      | unterminatedString again =>
          cases shape.symm.trans again
          exact absurd isDigit noDigit
      | malformedNumber _ _ => rfl
      | unknownCharacter again _ otherwise =>
          cases shape.symm.trans again
          exact absurd isDigit (Bool.eq_false_iff.mp otherwise)
  | unknownCharacter shape noQuote otherwise =>
      cases others with
      | unterminatedString again =>
          cases shape.symm.trans again
          exact absurd rfl noQuote
      | malformedNumber again isDigit =>
          cases shape.symm.trans again
          exact absurd isDigit (Bool.eq_false_iff.mp otherwise)
      | unknownCharacter again _ _ =>
          cases shape.symm.trans again
          rfl

theorem reports_relocate_all {tokens : List Token} {flaws : List AnalysisError}
    (reports : List.Forall₂ Reports (tokens.filter (·.isUnknown)) flaws) :
    List.Forall₂ Reports ((tokens.map (·.relocate relocation)).filter (·.isUnknown))
      (flaws.map (·.relocate relocation)) := by
  rw [List.filter_map, List.forall₂_map_left_iff, List.forall₂_map_right_iff]
  exact reports.imp fun _ _ each => each.relocate

end Tokens

/-- What tokenizing finds is said by the reports on the unknown tokens. -/
theorem lexicalDiagnostics_reports (source : String) :
    ∃ flaws, List.Forall₂ Reports ((tokenize source).filter (·.isUnknown)) flaws ∧
      Diagnostic.gists (lexicalDiagnostics source) =
        (flaws.map (·.diagnostic .lexical)).map (·.gist) := by
  obtain ⟨flaws, comment?, _, faults, reports⟩ := lexicalErrors_reports source
  refine ⟨flaws, reports, ?_⟩
  have kept : (flaws.map (·.diagnostic .lexical)).filter (·.code != "L004") =
      flaws.map (·.diagnostic .lexical) := by
    apply List.filter_eq_self.mpr
    intro found member
    obtain ⟨flaw, present, rfl⟩ := List.mem_map.mp member
    have severe := reports_isWarning reports flaw present
    rw [AnalysisError.isWarning_eq] at severe
    simp [AnalysisError.diagnostic, bne, severe]
  rw [lexicalDiagnostics, faults, List.map_append, Diagnostic.gists, List.filter_append, kept]
  cases comment? with
  | none => rw [Option.toList_none, List.map_nil, List.map_nil, List.filter_nil, List.append_nil]
  | some comment => exact congrArg (List.map _) (List.append_nil _)

/-- Tokenizing finds the same in texts with the same tokens, but for a comment that is never
closed. -/
theorem lexicalDiagnostics_gists {first second : String}
    (same : (tokenize first).map (·.relocate .collapse) =
      (tokenize second).map (·.relocate .collapse)) :
    Diagnostic.gists (lexicalDiagnostics first) = Diagnostic.gists (lexicalDiagnostics second) := by
  obtain ⟨firstFlaws, firstReports, firstGists⟩ := lexicalDiagnostics_reports first
  obtain ⟨secondFlaws, secondReports, secondGists⟩ := lexicalDiagnostics_reports second
  have firstPlaced := @reports_relocate_all .collapse _ _ firstReports
  have secondPlaced := @reports_relocate_all .collapse _ _ secondReports
  rw [same] at firstPlaced
  rw [firstGists, secondGists]
  exact gist_of_collapse (reports_rightUnique.forall₂ firstPlaced secondPlaced) .lexical

end StagedAnalysis
