import StagedAnalysis.Main
import StagedAnalysis.Proofs.Grammar
import StagedAnalysis.Proofs.Reading.Steps
import StagedAnalysis.Proofs.Reading.Expressions
import StagedAnalysis.Proofs.Reading.Programs
import StagedAnalysis.Proofs.Checking.Traces
import StagedAnalysis.Proofs.Typing
import StagedAnalysis.Proofs.Checking.Expressions
import StagedAnalysis.Proofs.Checking.Programs
import StagedAnalysis.Proofs.Checking.Reports
import StagedAnalysis.Proofs.Checking.Widening
import StagedAnalysis.Proofs.Lexing
import StagedAnalysis.Proofs.Reading.Failures
import StagedAnalysis.Proofs.Sessions.Stages
import StagedAnalysis.Proofs.Sessions.History
import StagedAnalysis.Proofs.Sessions.Agreement
import StagedAnalysis.Proofs.Lexing.Scans
import StagedAnalysis.Proofs.Lexing.Tiling
import StagedAnalysis.Proofs.Lexing.Flaws
import StagedAnalysis.Proofs.Sessions.Transcripts
import StagedAnalysis.Proofs.Sessions.Invariants
import StagedAnalysis.Proofs.Sessions.Refusals
import StagedAnalysis.Proofs.Sessions.BlankSources
import StagedAnalysis.Proofs.Layout.Relocation
import StagedAnalysis.Proofs.Layout.Checking
import StagedAnalysis.Proofs.Layout.Reading
import StagedAnalysis.Proofs.Layout.Diagnostics
import StagedAnalysis.Proofs.Sessions.Layout
import StagedAnalysis.Proofs.Trees
import StagedAnalysis.Proofs.Reading.Depth
import StagedAnalysis.Proofs.Checking.Recursion
import StagedAnalysis.Proofs.Scopes.Refinement
import StagedAnalysis.Proofs.Checking.Analyzers
import StagedAnalysis.Proofs.Checking.RootCauses
import StagedAnalysis.Proofs.Naming
import StagedAnalysis.Proofs.LineEnds.Text
import StagedAnalysis.Proofs.LineEnds.Lexemes
import StagedAnalysis.Proofs.LineEnds.Tokens
import StagedAnalysis.Proofs.LineEnds.Sessions
import StagedAnalysis.Proofs.CommandLine.ExitCodes
import StagedAnalysis.Proofs.Json.Spelling
import StagedAnalysis.Proofs.Json.Format
import StagedAnalysis.Proofs.Json.Reading
import StagedAnalysis.Proofs.Json.Writing
import StagedAnalysis.Proofs.Json.Library
import StagedAnalysis.Proofs.Json.Reports
import StagedAnalysis.Proofs.Prefixes.Phrases
import StagedAnalysis.Proofs.Prefixes.Steps
import StagedAnalysis.Proofs.Prefixes.Unlimited
import StagedAnalysis.Proofs.Prefixes.Forms
import StagedAnalysis.Proofs.Prefixes.Expressions
import StagedAnalysis.Proofs.Prefixes.Statements
import StagedAnalysis.Proofs.Prefixes.Programs
import StagedAnalysis.Proofs.Checking.Names
import StagedAnalysis.Proofs.Checking.Occurrences
import StagedAnalysis.Proofs.Checking.Strictness
import StagedAnalysis.Proofs.Checking.Frames
import StagedAnalysis.Proofs.Checking.Omissions
import StagedAnalysis.Proofs.Reading.Progress
import StagedAnalysis.Proofs.Reading.Families
import StagedAnalysis.Proofs.Reading.Compositional
import StagedAnalysis.Proofs.Reading.Outcomes
import StagedAnalysis.Proofs.Reading.Likeness
import StagedAnalysis.Proofs.Reading.EndOfInput
import StagedAnalysis.Proofs.Reading.Reuse
import StagedAnalysis.Proofs.Reading.Watched
import StagedAnalysis.Proofs.Reading.Levels
import StagedAnalysis.Proofs.Reading.Concatenation
import StagedAnalysis.Proofs.Reading.Loops
import StagedAnalysis.Proofs.Reading.Rounds
import StagedAnalysis.Proofs.Reading.Patience
import StagedAnalysis.Proofs.Reading.Termination
import StagedAnalysis.Proofs.Ranges.Rows
import StagedAnalysis.Proofs.Ranges.Reading
import StagedAnalysis.Proofs.Ranges.Programs
import StagedAnalysis.Proofs.Lexing.Numerals
import StagedAnalysis.Proofs.Lexing.Extents
import StagedAnalysis.Proofs.Lexing.Lexemes
import StagedAnalysis.Proofs.Lexing.Positions
import StagedAnalysis.Proofs.Lexing.MaximalMunch
import StagedAnalysis.Proofs.Lexing.OnLines
import StagedAnalysis.Proofs.Lexing.Streaming
import StagedAnalysis.Proofs.Lexing.Concatenation
import StagedAnalysis.Proofs.Lexing.Strings
import StagedAnalysis.Proofs.Lexing.Numbers
