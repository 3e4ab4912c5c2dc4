import StagedAnalysis.Checking.Analyzer
import StagedAnalysis.Diagnostic
import StagedAnalysis.Parsing.Statement
import StagedAnalysis.TokenStream
/-!
Verdicts and diagnostics on a source text or a list of tokens, each computed from the start.
-/
namespace StagedAnalysis

def lexicalDiagnostics (source : String) : List Diagnostic :=
  (lexicalErrors source).map (·.diagnostic .lexical)

/-- What parsing and checking a list of tokens finds. Where it does not parse, that is all. -/
def semanticDiagnostics (tokens : List Token) (strict : Bool) : List Diagnostic :=
  match Program.ofTokens tokens with
  | .ok program => (program.check strict).map (·.diagnostic .semantic)
  | .error error => [error.diagnostic .syntactic]

def isValidSyntax (tokens : List Token) : Bool :=
  (Program.ofTokens tokens).isOk

def isValidSemantically (tokens : List Token) : Bool :=
  match Program.ofTokens tokens with
  | .ok program => (program.check false).isEmpty
  | .error _ => false

end StagedAnalysis
