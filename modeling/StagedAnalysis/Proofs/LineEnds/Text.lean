import Mathlib.Order.MinMax
import StagedAnalysis.Proofs.Layout.Relocation
import StagedAnalysis.Proofs.Lexing.Tiling
import StagedAnalysis.Text.Blank
/-!
Texts with the other line ends.

Some texts end a line with a line feed, some with a carriage return in front of it. Going from the
one to the other moves every byte behind a line end, but no character leaves its line or its column:
the carriage return is the last character of its line.
-/
namespace StagedAnalysis

namespace LineEnds

def double (text : List Char) : List Char :=
  text.flatMap fun character => if character = '\n' then ['\r', '\n'] else [character]

/-- The source text with a carriage return in front of every line feed. -/
def doubled (source : String) : String :=
  String.ofList (double source.toList)

example : doubled "a\nb" = "a\r\nb" := by decide

@[simp] theorem double_nil : double [] = [] :=
  rfl

@[simp] theorem double_newline (rest : List Char) :
    double ('\n' :: rest) = '\r' :: '\n' :: double rest :=
  rfl

theorem double_cons {character : Char} (inLine : character ≠ '\n') (rest : List Char) :
    double (character :: rest) = character :: double rest := by
  rw [double, List.flatMap_cons, if_neg inLine]
  rfl

@[simp] theorem double_append (first second : List Char) :
    double (first ++ second) = double first ++ double second :=
  List.flatMap_append

theorem double_eq_nil_iff {text : List Char} : double text = [] ↔ text = [] := by
  cases text with
  | nil => exact iff_of_true rfl rfl
  | cons character rest =>
      refine iff_of_false ?_ (List.cons_ne_nil _ _)
      by_cases lineEnd : character = '\n'
      · subst lineEnd
        exact List.cons_ne_nil _ _
      · rw [double_cons lineEnd]
        exact List.cons_ne_nil _ _

/-- What comes next is the same character, but for a line end. -/
theorem double_head {text : List Char} {character : Char} {behind : List Char}
    (inLine : character ≠ '\n') (noReturn : character ≠ '\r')
    (shape : double text = character :: behind) :
    ∃ rest, text = character :: rest ∧ behind = double rest := by
  cases text with
  | nil => cases shape
  | cons first rest =>
      by_cases lineEnd : first = '\n'
      · subst lineEnd
        rw [double_newline] at shape
        cases shape
        exact absurd rfl noReturn
      · rw [double_cons lineEnd] at shape
        cases shape
        exact ⟨rest, rfl, rfl⟩

theorem isBlank_doubled (source : String) : Text.isBlank (doubled source) = Text.isBlank source := by
  have blankEnds : Text.isBlankCharacter '\r' = true ∧ Text.isBlankCharacter '\n' = true := by
    decide
  rw [Text.isBlank, doubled, String.toList_ofList, Text.isBlank]
  induction source.toList with
  | nil => rfl
  | cons character text inductionHypothesis =>
      by_cases lineEnd : character = '\n'
      · subst lineEnd
        simp [blankEnds, inductionHypothesis]
      · rw [double_cons lineEnd, List.all_cons, List.all_cons, inductionHypothesis]

/-! ### Places -/

/-- Where a byte offset of the text has gone. An offset inside of a character stays inside. -/
def shift : List Char → Nat → Nat
  | [], offset => offset
  | character :: rest, offset =>
    if offset < character.utf8Size then offset
    else byteSize (double [character]) + shift rest (offset - character.utf8Size)

theorem utf8Size_le_double (character : Char) :
    character.utf8Size ≤ byteSize (double [character]) := by
  by_cases lineEnd : character = '\n'
  · subst lineEnd
    decide
  · rw [double_cons lineEnd, double_nil, byteSize_cons]
    exact Nat.le_add_right _ _

/-- Where the text before an offset ends, there ends the doubled text before it. -/
theorem shift_byteSize (before behind : List Char) :
    shift (before ++ behind) (byteSize before) = byteSize (double before) := by
  induction before with
  | nil =>
      cases behind with
      | nil => rfl
      | cons character behind => exact if_pos character.utf8Size_pos
  | cons character before inductionHypothesis =>
      have past : ¬ byteSize (character :: before) < character.utf8Size := by
        rw [byteSize_cons]
        omega
      rw [List.cons_append, shift, if_neg past, byteSize_cons, Nat.add_sub_cancel_left,
        inductionHypothesis, ← byteSize_append, ← double_append]
      rfl

theorem shift_strictMono (text : List Char) : StrictMono (shift text) := by
  induction text with
  | nil => exact strictMono_id
  | cons character text inductionHypothesis =>
      have wider := utf8Size_le_double character
      intro first second less
      rw [shift, shift]
      split
      · split
        · exact less
        · omega
      · rw [if_neg (by omega)]
        have further : shift text (first - character.utf8Size) <
            shift text (second - character.utf8Size) := inductionHypothesis (by omega)
        omega

def relocation (text : List Char) : Relocation where
  move span := ⟨shift text span.start, shift text span.stop, span.line, span.column⟩
  move_merge left right := by
    have stops : shift text (max left.stop right.stop) =
        max (shift text left.stop) (shift text right.stop) :=
      (shift_strictMono text).monotone.map_max
    unfold Span.merge
    simp only [(shift_strictMono text).lt_iff_lt]
    split <;> simp only [stops]

def movePlace (text : List Char) (place : Position) : Position :=
  ⟨shift text place.offset, place.line, place.column⟩

theorem move_between (text : List Char) (first last : Position) :
    (relocation text).move (.between first last) =
      .between (movePlace text first) (movePlace text last) :=
  rfl

/-- A line end takes both texts to the beginning of the same line. -/
theorem after_double_line {place other : Position} (line : other.line = place.line)
    (column : other.column = place.column) (text : List Char) :
    (other.after (double text)).line = (place.after text).line ∧
      (other.after (double text)).column = (place.after text).column := by
  induction text generalizing place other with
  | nil => exact ⟨line, column⟩
  | cons character text inductionHypothesis =>
      by_cases lineEnd : character = '\n'
      · subst lineEnd
        rw [double_newline, Position.after_cons, Position.after_cons, Position.after_cons]
        exact inductionHypothesis (congrArg (· + 1) line) rfl
      · rw [double_cons lineEnd, Position.after_cons, Position.after_cons]
        refine inductionHypothesis ?_ ?_
        · simpa [Position.next, lineEnd] using line
        · simpa [Position.next, lineEnd] using column

theorem start_after_double (before behind : List Char) :
    Position.start.after (double before) =
      movePlace (before ++ behind) (Position.start.after before) := by
  obtain ⟨line, column⟩ := @after_double_line .start .start rfl rfl before
  have offset : (Position.start.after (double before)).offset =
      shift (before ++ behind) (Position.start.after before).offset := by
    rw [Position.offset_after, Position.offset_after, Position.start, Nat.zero_add, Nat.zero_add,
      shift_byteSize]
  rw [movePlace, ← offset, ← line, ← column]

end LineEnds

end StagedAnalysis
