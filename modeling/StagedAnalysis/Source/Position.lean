/-!
Places and ranges in a source text. A place counts UTF-8 bytes from zero and lines and columns from
one; a line feed ends a line, and every other character is one column wide.

Lines and columns are not bounded here; 32 bits hold them as long as the text is shorter than
`UInt32.size - 1` characters (`Position.start_after_lt_size`).

Main statements: reading a text piece by piece reaches the same place as reading it at once
(`Position.after_append`), and a merged range covers both of its parts.
-/
namespace StagedAnalysis

structure Position where
  offset : Nat
  line : Nat
  column : Nat
  deriving DecidableEq

namespace Position

def start : Position := ⟨0, 1, 1⟩

def next (place : Position) (character : Char) : Position :=
  if character = '\n' then
    ⟨place.offset + character.utf8Size, place.line + 1, 1⟩
  else
    ⟨place.offset + character.utf8Size, place.line, place.column + 1⟩

def after (place : Position) (text : List Char) : Position :=
  text.foldl next place

@[simp] theorem after_nil (place : Position) : place.after [] = place := rfl

@[simp] theorem after_cons (place : Position) (character : Char) (text : List Char) :
    place.after (character :: text) = (place.next character).after text := rfl

theorem after_append (place : Position) (first second : List Char) :
    place.after (first ++ second) = (place.after first).after second :=
  List.foldl_append

theorem after_lt_size {place : Position} {text : List Char}
    (line : place.line + text.length < UInt32.size)
    (column : place.column + text.length < UInt32.size) :
    (place.after text).line < UInt32.size ∧ (place.after text).column < UInt32.size := by
  induction text generalizing place with
  | nil => exact ⟨line, column⟩
  | cons character text inductionHypothesis =>
      rw [List.length_cons] at line column
      rw [after_cons]
      refine inductionHypothesis ?_ ?_
      all_goals
        rw [next]
        split <;> dsimp only <;> omega

/-- The bound under which 32 bits are enough for every line and column of a text. -/
theorem start_after_lt_size {text : List Char} (short : text.length < UInt32.size - 1) :
    (start.after text).line < UInt32.size ∧ (start.after text).column < UInt32.size := by
  have within : 1 + text.length < UInt32.size := by omega
  exact after_lt_size within within

end Position

/-- A range of the source with the line and column of its first character; 32 bits hold both in
every source shorter than `UInt32.size - 1` characters. -/
structure Span where
  start : Nat
  stop : Nat
  line : Nat
  column : Nat
  deriving DecidableEq

namespace Span

/-- The empty range at the beginning of a text, for things that have no place of their own. -/
def origin : Span := ⟨0, 0, 1, 1⟩

instance : Inhabited Span := ⟨origin⟩

def between (first last : Position) : Span :=
  ⟨first.offset, last.offset, first.line, first.column⟩

/-- The smallest range that covers both; its line and column are those of the part that starts
first. -/
def merge (left right : Span) : Span :=
  if right.start < left.start then
    ⟨right.start, max left.stop right.stop, right.line, right.column⟩
  else
    ⟨left.start, max left.stop right.stop, left.line, left.column⟩

/-- The number of bytes in the range. -/
def length (span : Span) : Nat :=
  span.stop - span.start

def isEmpty (span : Span) : Bool :=
  span.start == span.stop

/-- The empty range directly behind `span`, when `span` covers `text` within one line. In a source
of that length 32 bits hold its column too; of any other span the sum is not wrapped around. -/
def behind (span : Span) (text : String) : Span :=
  ⟨span.stop, span.stop, span.line, span.column + text.length⟩

def text (span : Span) : String :=
  s!"{span.line}:{span.column}"

theorem merge_start (left right : Span) :
    (left.merge right).start = min left.start right.start := by
  unfold merge
  split <;> simp <;> omega

theorem merge_stop (left right : Span) :
    (left.merge right).stop = max left.stop right.stop := by
  unfold merge
  split <;> rfl

end Span

end StagedAnalysis
