import StagedAnalysis.AnalysisError
/-!
A cursor stands at a place of a source text and holds the characters behind it. Between two tokens
it moves over the gap: spaces, line comments and block comments. A block comment ends at the first
`*/` behind its opening; one that never ends reaches to the end of the text and is reported.
-/
namespace StagedAnalysis

structure Cursor where
  place : Position
  rest : List Char
  deriving DecidableEq

namespace Cursor

def ofSource (source : String) : Cursor :=
  ⟨.start, source.toList⟩

end Cursor

structure Gap where
  next : Cursor
  unclosed : Option Span
  deriving DecidableEq

namespace Gap

inductive Inside where
  | nothing
  | lineComment
  | blockComment (opened : Position)
  deriving DecidableEq

def isSpace (character : Char) : Bool :=
  character == ' ' || character == '\t' || character == '\r' || character == '\n'

/-- Moves over the part of a gap that is left, given what the next character belongs to. -/
def skip (place : Position) : Inside → List Char → Gap
  | .nothing, '/' :: '/' :: rest => skip (place.after ['/', '/']) .lineComment rest
  | .nothing, '/' :: '*' :: rest => skip (place.after ['/', '*']) (.blockComment place) rest
  | .nothing, character :: rest =>
    if isSpace character then skip (place.next character) .nothing rest
    else ⟨⟨place, character :: rest⟩, none⟩
  | .lineComment, character :: rest =>
    if character = '\n' then skip (place.next character) .nothing rest
    else skip (place.next character) .lineComment rest
  | .blockComment _, '*' :: '/' :: rest => skip (place.after ['*', '/']) .nothing rest
  | .blockComment opened, character :: rest =>
    skip (place.next character) (.blockComment opened) rest
  | .blockComment opened, [] => ⟨⟨place, []⟩, some (.between opened place)⟩
  | _, [] => ⟨⟨place, []⟩, none⟩

theorem skip_rest_length_le (place : Position) (inside : Inside) (text : List Char) :
    (skip place inside text).next.rest.length ≤ text.length := by
  fun_induction skip place inside text <;> simp_all <;> omega

/-- A comment is unclosed only if it took all of the text. -/
theorem rest_eq_nil_of_unclosed {place : Position} {inside : Inside} {text : List Char}
    {span : Span}
    (unclosed : (skip place inside text).unclosed = some span) :
    (skip place inside text).next.rest = [] := by
  fun_induction skip place inside text <;> simp_all

end Gap

namespace Cursor

def gap (cursor : Cursor) : Gap :=
  Gap.skip cursor.place .nothing cursor.rest

end Cursor

end StagedAnalysis
