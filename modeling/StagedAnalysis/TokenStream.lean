import StagedAnalysis.Lexeme.Scan
import StagedAnalysis.Source.Cursor
/-!
The tokens of a source text, in order, with the faults met on the way. Each step skips a gap and
cuts off one lexeme; the last step gives the token that stands for the end of the input. A
`Scanner` takes the steps one by one or all at once, and remembers the faults.
-/
namespace StagedAnalysis

structure ScanStep where
  token : Token
  faults : List AnalysisError
  next : Cursor
  deriving DecidableEq

namespace ScanStep

def ofLexeme (place : Position) (first : Char) (rest : List Char) : ScanStep :=
  let lexeme := Lexeme.scan first rest
  let text := String.ofList lexeme.text
  let stop := place.after lexeme.text
  let span := Span.between place stop
  match lexeme.sort with
  | .ok kind => ⟨⟨kind, text, span⟩, [], ⟨stop, lexeme.rest⟩⟩
  | .error flaw => ⟨⟨.unknown, text, span⟩, [flaw.error text span], ⟨stop, lexeme.rest⟩⟩

def ofEnd (gap : Gap) : ScanStep :=
  let place := gap.next.place
  ⟨.closing (.between place place), gap.unclosed.toList.map .unterminatedComment, gap.next⟩

def ofGap (gap : Gap) : ScanStep :=
  match gap.next.rest with
  | [] => ofEnd gap
  | first :: rest => ofLexeme gap.next.place first rest

@[simp] theorem ofLexeme_next (place : Position) (first : Char) (rest : List Char) :
    (ofLexeme place first rest).next
      = ⟨place.after (Lexeme.scan first rest).text, (Lexeme.scan first rest).rest⟩ := by
  unfold ofLexeme
  dsimp only
  split <;> rfl

theorem ofGap_rest_lt {gap : Gap} (more : gap.next.rest ≠ []) :
    (ofGap gap).next.rest.length < gap.next.rest.length := by
  unfold ofGap
  split
  · contradiction
  · rename_i first rest same
    rw [same, ofLexeme_next]
    exact Lexeme.scan_rest_lt first rest

end ScanStep

namespace Cursor

def step (cursor : Cursor) : ScanStep :=
  .ofGap cursor.gap

def steps (cursor : Cursor) : List ScanStep :=
  let gap := cursor.gap
  if gap.next.rest = [] then [.ofGap gap]
  else ScanStep.ofGap gap :: (ScanStep.ofGap gap).next.steps
termination_by cursor.rest.length
decreasing_by
  rename_i more
  exact Nat.lt_of_lt_of_le (ScanStep.ofGap_rest_lt more) (Gap.skip_rest_length_le _ _ _)

end Cursor

structure Scanner where
  cursor : Cursor
  errors : List AnalysisError
  deriving DecidableEq

namespace Scanner

def ofSource (source : String) : Scanner :=
  ⟨.ofSource source, []⟩

/-- The next token. At the end of the text this is the end of the input, again and again. -/
def next (scanner : Scanner) : Token × Scanner :=
  let step := scanner.cursor.step
  (step.token, ⟨step.next, scanner.errors ++ step.faults⟩)

def remaining (scanner : Scanner) : List Token × Scanner :=
  let steps := scanner.cursor.steps
  (steps.map (·.token),
    ⟨steps.foldl (fun _ step => step.next) scanner.cursor,
      scanner.errors ++ steps.flatMap (·.faults)⟩)

end Scanner

/-- The tokens of a source text, the last of which is the end of the input. -/
def tokenize (source : String) : List Token :=
  (Scanner.ofSource source).remaining.1

def lexicalErrors (source : String) : List AnalysisError :=
  (Scanner.ofSource source).remaining.2.errors

def isValidLexically (tokens : List Token) : Bool :=
  !tokens.any (·.isUnknown)

end StagedAnalysis
