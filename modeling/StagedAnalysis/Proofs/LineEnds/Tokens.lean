import Mathlib.Data.List.Forall2
import StagedAnalysis.Proofs.LineEnds.Lexemes
import StagedAnalysis.Proofs.Lexing.Lexemes
/-!
Tokens of texts with the other line ends.

The steps over a text and over the doubled text are taken side by side. Behind a string that does
not end, the two stand at different places for a moment: the string has taken the carriage return
with it, and only the line feed is left. The gap that follows makes up for it.
-/
namespace StagedAnalysis

def Token.isUnendedString (token : Token) : Bool :=
  token.isUnknown && token.lexeme.toList.head? == some '"'

namespace LineEnds

inductive StepCorresponds (source : List Char) : ScanStep → ScanStep → Prop
  | moved {token : Token} {faults : List AnalysisError} {next other : Cursor} :
      StepCorresponds source ⟨token, faults, next⟩
        ⟨token.relocate (relocation source), faults.map (·.relocate (relocation source)), other⟩
  | cut {text : List Char} {span moved : Span} {next other : Cursor}
      (line : span.line = moved.line) (column : span.column = moved.column) :
      StepCorresponds source
        ⟨⟨.unknown, String.ofList ('"' :: text), span⟩,
          [.unterminatedString (String.ofList ('"' :: text)) span], next⟩
        ⟨⟨.unknown, String.ofList ('"' :: (text ++ ['\r'])), moved⟩,
          [.unterminatedString (String.ofList ('"' :: (text ++ ['\r']))) moved], other⟩

inductive CursorCorresponds (source : List Char) : Cursor → Cursor → Prop
  | even {before rest : List Char} (whole : before ++ rest = source) :
      CursorCorresponds source ⟨Position.start.after before, rest⟩
        ⟨Position.start.after (double before), double rest⟩
  | behindReturn {before rest : List Char} (whole : before ++ '\n' :: rest = source) :
      CursorCorresponds source ⟨Position.start.after before, '\n' :: rest⟩
        ⟨(Position.start.after (double before)).next '\r', '\n' :: double rest⟩

variable {source : List Char} {cursor other : Cursor}

theorem gap_corresponds (corresponds : CursorCorresponds source cursor other) :
    other.gap = moveGap source cursor.gap := by
  cases corresponds with
  | even whole => exact skip_double whole .nothing
  | behindReturn whole => exact skip_double whole .nothing

theorem gap_reaches (corresponds : CursorCorresponds source cursor other) :
    ∃ before, before ++ cursor.gap.next.rest = source ∧
      cursor.gap.next.place = Position.start.after before := by
  have started : ∃ before, before ++ cursor.rest = source ∧
      cursor.place = Position.start.after before := by
    cases corresponds with
    | even whole => exact ⟨_, whole, rfl⟩
    | behindReturn whole => exact ⟨_, whole, rfl⟩
  obtain ⟨before, whole, place⟩ := started
  have skipped := cursor.gap_over
  generalize cursor.gap = gap at skipped ⊢
  generalize cursor.rest = text at skipped whole
  rw [place] at skipped
  cases skipped with
  | @closed text rest fills =>
      refine ⟨before ++ text, ?_, (Position.after_append _ _ _).symm⟩
      rw [List.append_assoc, whole]
  | @unclosed text body fills within =>
      refine ⟨before ++ (text ++ '/' :: '*' :: body), ?_, (Position.after_append _ _ _).symm⟩
      rw [List.append_nil, whole]

theorem ofEnd_corresponds (gap : Gap) :
    StepCorresponds source (.ofEnd gap) (.ofEnd (moveGap source gap)) := by
  obtain ⟨next, unclosed⟩ := gap
  cases unclosed <;> exact .moved

theorem start_after_append {before text behind : List Char} (whole : before ++ (text ++ behind) = source)
    (unchanged : double text = text) :
    (Position.start.after (double before)).after text =
      movePlace source ((Position.start.after before).after text) := by
  have reached := start_after_double (before ++ text) behind
  rw [List.append_assoc, whole, after_piece, unchanged, Position.after_append] at reached
  exact reached

theorem ofLexeme_corresponds {before rest : List Char} {first : Char}
    (whole : before ++ first :: rest = source) (inLine : first ≠ '\n') :
    StepCorresponds source (.ofLexeme (Position.start.after before) first rest)
        (.ofLexeme (Position.start.after (double before)) first (double rest)) ∧
      CursorCorresponds source (ScanStep.ofLexeme (Position.start.after before) first rest).next
        (ScanStep.ofLexeme (Position.start.after (double before)) first (double rest)).next := by
  have corresponds := scan_corresponds inLine rest
  have parts := Lexeme.scan_append first rest
  have otherParts := Lexeme.scan_append first (double rest)
  have place := start_after_double before (first :: rest)
  unfold ScanStep.ofLexeme
  generalize Lexeme.scan first rest = lexeme at corresponds parts ⊢
  generalize Lexeme.scan first (double rest) = moved at corresponds otherParts ⊢
  rw [← double_cons inLine, ← parts, double_append] at otherParts
  rw [whole] at place
  rw [← parts] at whole
  -- what the two lexemes leave shows that there is no line end in a lexeme
  cases corresponds with
  | @same text behind sort =>
      have unchanged : double text = text := (List.append_cancel_right otherParts).symm
      have stop := start_after_append whole unchanged
      have next : CursorCorresponds source ⟨(Position.start.after before).after text, behind⟩
          ⟨(Position.start.after (double before)).after text, double behind⟩ := by
        have reached := @CursorCorresponds.even source (before ++ text) behind (by simpa using whole)
        rwa [after_piece, unchanged, Position.after_append] at reached
      cases sort with
      | ok kind =>
          refine ⟨?_, next⟩
          dsimp only
          rw [stop, place]
          exact .moved
      | error flaw =>
          refine ⟨?_, next⟩
          dsimp only
          rw [stop, place]
          cases flaw <;> exact .moved
  | @cut text behind =>
      have unchanged : double ('"' :: text) = '"' :: text := by
        rw [double_newline] at otherParts
        have ends : '"' :: text ++ '\r' :: '\n' :: double behind =
            double ('"' :: text) ++ '\r' :: '\n' :: double behind := by
          simpa using otherParts
        exact (List.append_cancel_right ends).symm
      have next := @CursorCorresponds.behindReturn source (before ++ '"' :: text) behind
        (by simpa using whole)
      rw [after_piece, unchanged, Position.after_append] at next
      refine ⟨.cut (congrArg Position.line place).symm (congrArg Position.column place).symm, ?_⟩
      simpa [Position.after_append] using next

theorem step_corresponds (corresponds : CursorCorresponds source cursor other) :
    StepCorresponds source (.ofGap cursor.gap) (.ofGap other.gap) ∧
      (cursor.gap.next.rest ≠ [] → CursorCorresponds source (ScanStep.ofGap cursor.gap).next
        (ScanStep.ofGap other.gap).next) := by
  obtain ⟨before, whole, place⟩ := gap_reaches corresponds
  have stops : Gap.Stops cursor.gap.next.rest := Gap.stops_skip cursor.place .nothing cursor.rest
  rw [gap_corresponds corresponds]
  generalize cursor.gap = gap at whole place stops ⊢
  cases left : gap.next.rest with
  | nil =>
      have otherLeft : (moveGap source gap).next.rest = [] := by
        rw [moveGap, left, double_nil]
      rw [ScanStep.ofGap, left, ScanStep.ofGap, otherLeft]
      exact ⟨ofEnd_corresponds gap, fun more => absurd rfl more⟩
  | cons first rest =>
      rw [left] at whole stops
      have inLine : first ≠ '\n' := stops.inLine
      have otherLeft : (moveGap source gap).next.rest = first :: double rest := by
        rw [moveGap, left, double_cons inLine]
      have otherPlace : (moveGap source gap).next.place = Position.start.after (double before) := by
        rw [moveGap, place, start_after_double before (first :: rest), whole]
      rw [ScanStep.ofGap, left, ScanStep.ofGap, otherLeft]
      dsimp only
      rw [otherPlace, place]
      have lexeme := ofLexeme_corresponds whole inLine
      exact ⟨lexeme.1, fun _ => lexeme.2⟩

theorem gap_ends_iff (corresponds : CursorCorresponds source cursor other) :
    other.gap.next.rest = [] ↔ cursor.gap.next.rest = [] := by
  rw [gap_corresponds corresponds, moveGap]
  exact double_eq_nil_iff

theorem steps_correspond (corresponds : CursorCorresponds source cursor other) :
    List.Forall₂ (StepCorresponds source) cursor.steps other.steps := by
  fun_induction Cursor.steps cursor generalizing other with
  | case1 cursor gap =>
      rename_i done
      rw [Cursor.steps.eq_def other, if_pos ((gap_ends_iff corresponds).mpr done)]
      exact .cons (step_corresponds corresponds).1 .nil
  | case2 cursor gap more =>
      rename_i inductionHypothesis
      rw [Cursor.steps.eq_def other, if_neg ((gap_ends_iff corresponds).not.mpr more)]
      obtain ⟨here, behind⟩ := step_corresponds corresponds
      exact .cons here (inductionHypothesis (behind more))

/-! ### Whole texts -/

theorem ofSource_corresponds (source : String) :
    CursorCorresponds source.toList (.ofSource source) (.ofSource (doubled source)) := by
  rw [Cursor.ofSource, Cursor.ofSource, doubled, String.toList_ofList]
  exact @CursorCorresponds.even source.toList [] source.toList rfl

/-- A token and the one in its place in the doubled text: the two are the same at the same line and
column, unless they are strings that do not end. -/
structure SameToken (token moved : Token) : Prop where
  kind : moved.kind = token.kind
  line : moved.span.line = token.span.line
  column : moved.span.column = token.span.column
  lexeme : token.isUnendedString = false → moved.lexeme = token.lexeme

theorem tokenize_doubled (source : String) :
    List.Forall₂ SameToken (tokenize source) (tokenize (doubled source)) := by
  rw [tokenize_eq, tokenize_eq, List.forall₂_map_left_iff, List.forall₂_map_right_iff]
  refine (steps_correspond (ofSource_corresponds source)).imp fun step moved corresponds => ?_
  cases corresponds with
  | moved => exact ⟨rfl, rfl, rfl, fun _ => rfl⟩
  | cut line column =>
      exact ⟨rfl, line.symm, column.symm, fun ended => by simp [Token.isUnendedString,
        Token.isUnknown] at ended⟩

/-- If all tokens are of the language, the tokens of the doubled text are the moved tokens. -/
theorem tokenize_doubled_of_valid {source : String}
    (valid : isValidLexically (tokenize source) = true) :
    tokenize (doubled source) = (tokenize source).map (·.relocate (relocation source.toList)) := by
  have steps := steps_correspond (ofSource_corresponds source)
  rw [isValidLexically, Bool.not_eq_true', List.any_eq_false] at valid
  rw [tokenize_eq] at valid ⊢
  rw [tokenize_eq]
  generalize (Cursor.ofSource source).steps = first at steps valid ⊢
  generalize (Cursor.ofSource (doubled source)).steps = second at steps ⊢
  induction steps with
  | nil => rfl
  | cons corresponds others inductionHypothesis =>
      obtain ⟨known, othersKnown⟩ := List.forall_mem_cons.mp valid
      rw [List.map_cons, List.map_cons, List.map_cons, inductionHypothesis othersKnown]
      cases corresponds with
      | moved => rfl
      | cut line column => exact absurd rfl known

end LineEnds

end StagedAnalysis
