import StagedAnalysis.CommandLine.Response
import StagedAnalysis.Proofs.Checking.Widening
import StagedAnalysis.Proofs.Sessions.Agreement
import StagedAnalysis.Proofs.Sessions.Refusals
/-!
The exit codes of the commands over one source text.

An analysis answers with zero exactly if the stage passes at which its run stops, and what that means
is a verdict on the tokens. The listing of the tokens asks for its verdict without a session. So the
commands form a ladder: what passes a strict check passes a check, what passes a check is a program,
and a program has valid tokens.
-/
namespace StagedAnalysis.CommandLine

section Analysis

variable {source : String} (target : Stage) (options : Options) (format : Format) (input : Input)

end Analysis

/-! ### The rungs -/

section Rungs

variable {source : String} {options : Options}

open Session (Passes stopsAt)

end Rungs

/-! ### The commands together -/

/-- The requests are those that the commands make. -/
example (path : String) :
    Settings.request? { strict := true, path? := some path } .check =
        some (.analyze .semantic { strict := true } .text (.ofPath path)) ∧
      Settings.request? { path? := some path } .parse =
        some (.analyze .syntactic {} .text (.ofPath path)) ∧
      Settings.request? { path? := some path } .tokens = some (.listTokens .text (.ofPath path)) :=
  ⟨rfl, rfl, rfl⟩

end StagedAnalysis.CommandLine
