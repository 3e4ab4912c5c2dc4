import StagedAnalysis.TokenStream
/-!
What the steps over a text move over: gaps and lexemes in turn, and a last gap.

A gap splits into pieces: single spaces, line comments and block comments. A line comment goes up to
the end of its line, a block comment up to the first `*/` behind its opening; one that is never
closed can only stand at the end of the text. Skipping a gap moves over nothing else, and reports
the comment that is never closed with the place of its opening and of the end of the text.
-/
namespace StagedAnalysis

namespace Gap

/-- The text has no `*/` that would close a block comment. -/
def StaysOpen (text : List Char) : Prop :=
  ¬['*', '/'] <:+: text

inductive Piece : List Char → List Char → Prop
  | space {character : Char} {behind : List Char}
      (separates : character ∈ [' ', '\t', '\r', '\n']) : Piece [character] behind
  | lineComment {body behind : List Char} (within : '\n' ∉ body)
      (ends : ∀ next ∈ behind.head?, next = '\n') : Piece ('/' :: '/' :: body) behind
  | blockComment {body behind : List Char} (within : StaysOpen body) :
      Piece ('/' :: '*' :: (body ++ ['*', '/'])) behind

inductive Fills : List Char → List Char → Prop
  | nil {behind : List Char} : Fills [] behind
  | cons {first others behind : List Char} (piece : Piece first (others ++ behind))
      (rest : Fills others behind) : Fills (first ++ others) behind

inductive Over (place : Position) : List Char → Gap → Prop
  | closed {text rest : List Char} (fills : Fills text rest) :
      Over place (text ++ rest) ⟨⟨place.after text, rest⟩, none⟩
  | unclosed {text body : List Char} (fills : Fills text ('/' :: '*' :: body))
      (within : StaysOpen body) :
      Over place (text ++ '/' :: '*' :: body)
        ⟨⟨place.after (text ++ '/' :: '*' :: body), []⟩,
          some (.between (place.after text) (place.after (text ++ '/' :: '*' :: body)))⟩

theorem Piece.prepend {place : Position} {first text : List Char} {gap : Gap}
    (piece : Piece first text) (skips : Over (place.after first) text gap) :
    Over place (first ++ text) gap := by
  cases skips with
  | @closed text rest fills =>
      rw [← Position.after_append, ← List.append_assoc]
      exact .closed (.cons piece fills)
  | @unclosed text body fills within =>
      rw [← Position.after_append, ← Position.after_append, ← List.append_assoc]
      exact .unclosed (.cons piece fills) within

def Leads (place : Position) (text : List Char) (gap : Gap) : Inside → Prop
  | .nothing => Over place text gap
  | .lineComment => ∃ body rest, text = body ++ rest ∧ '\n' ∉ body ∧
      (∀ next ∈ rest.head?, next = '\n') ∧ Over (place.after body) rest gap
  | .blockComment opened =>
      (∃ body rest, text = body ++ '*' :: '/' :: rest ∧ StaysOpen body ∧
        Over (place.after (body ++ ['*', '/'])) rest gap) ∨
      StaysOpen text ∧
        gap = ⟨⟨place.after text, []⟩, some (.between opened (place.after text))⟩

theorem staysOpen_nil : StaysOpen [] := by
  simp [StaysOpen]

theorem StaysOpen.cons {character : Char} {text : List Char} (stays : StaysOpen text)
    (different : ∀ rest, character = '*' → text = '/' :: rest → False) :
    StaysOpen (character :: text) := by
  rw [StaysOpen, List.infix_cons_iff, not_or]
  refine ⟨?_, stays⟩
  rintro ⟨rest, same⟩
  simp only [List.cons_append, List.nil_append, List.cons.injEq] at same
  exact different rest same.1.symm same.2.symm

theorem skip_leads (place : Position) (inside : Inside) (text : List Char) :
    Leads place text (skip place inside text) inside := by
  fun_induction skip place inside text with
  | case1 place rest inductionHypothesis =>
      obtain ⟨body, behind, rfl, within, ends, skips⟩ := inductionHypothesis
      exact (Piece.lineComment within ends).prepend skips
  | case2 place rest inductionHypothesis =>
      rcases inductionHypothesis with ⟨body, behind, rfl, within, skips⟩ | ⟨within, same⟩
      · have whole := (@Piece.blockComment body behind within).prepend skips
        rwa [List.cons_append, List.cons_append, List.append_assoc] at whole
      · rw [same]
        exact .unclosed .nil within
  | case3 place character rest _ _ separates inductionHypothesis =>
      have piece := @Piece.space character rest (by simpa [isSpace, or_assoc] using separates)
      exact piece.prepend inductionHypothesis
  | case4 place character rest _ _ different =>
      exact .closed .nil
  | case5 place rest inductionHypothesis =>
      have piece := @Piece.space '\n' rest (by simp)
      exact ⟨[], '\n' :: rest, rfl, by simp, by simp, piece.prepend inductionHypothesis⟩
  | case6 place character rest different inductionHypothesis =>
      obtain ⟨body, behind, rfl, within, ends, skips⟩ := inductionHypothesis
      refine ⟨character :: body, behind, rfl, ?_, ends, skips⟩
      exact List.not_mem_cons_of_ne_of_not_mem (Ne.symm different) within
  | case7 place opened rest inductionHypothesis =>
      exact .inl ⟨[], rest, rfl, staysOpen_nil, inductionHypothesis⟩
  | case8 place opened character rest different inductionHypothesis =>
      rcases inductionHypothesis with ⟨body, behind, rfl, within, skips⟩ | ⟨within, same⟩
      · refine .inl ⟨character :: body, behind, rfl, within.cons ?_, skips⟩
        rintro following rfl rfl
        exact different _ rfl rfl
      · exact .inr ⟨within.cons different, same⟩
  | case9 place opened => exact .inr ⟨staysOpen_nil, rfl⟩
  | case10 place inside noComment =>
      cases inside with
      | nothing => exact .closed .nil
      | lineComment => exact ⟨[], [], rfl, by simp, by simp, .closed .nil⟩
      | blockComment opened => exact absurd rfl (noComment opened)

end Gap

/-! ### Steps -/

inductive Scans : Position → List Char → List ScanStep → Option Span → Prop
  | ending {place : Position} {text : List Char} (fills : Gap.Fills text []) :
      Scans place text [.ofEnd ⟨⟨place.after text, []⟩, none⟩] none
  | unclosed {place : Position} {text body : List Char} {comment : Span}
      (fills : Gap.Fills text ('/' :: '*' :: body)) (within : Gap.StaysOpen body)
      (range : comment =
        .between (place.after text) (place.after (text ++ '/' :: '*' :: body))) :
      Scans place (text ++ '/' :: '*' :: body)
        [.ofEnd ⟨⟨place.after (text ++ '/' :: '*' :: body), []⟩, some comment⟩] (some comment)
  | lexeme {place : Position} {text rest : List Char} {first : Char} {steps : List ScanStep}
      {comment? : Option Span} (fills : Gap.Fills text (first :: rest))
      (others : Scans ((place.after text).after (Lexeme.scan first rest).text)
        (Lexeme.scan first rest).rest steps comment?) :
      Scans place (text ++ first :: rest) (.ofLexeme (place.after text) first rest :: steps)
        comment?

namespace Cursor

theorem gap_over (cursor : Cursor) : Gap.Over cursor.place cursor.rest cursor.gap :=
  Gap.skip_leads cursor.place .nothing cursor.rest

theorem steps_scans (cursor : Cursor) :
    ∃ comment?, Scans cursor.place cursor.rest cursor.steps comment? := by
  fun_induction Cursor.steps cursor with
  | case1 cursor gap done =>
      have skips : Gap.Over cursor.place cursor.rest gap := cursor.gap_over
      clear_value gap
      generalize cursor.rest = text at skips ⊢
      cases skips with
      | closed fills =>
          cases done
          rw [List.append_nil]
          exact ⟨none, .ending fills⟩
      | unclosed fills within => exact ⟨some _, .unclosed fills within rfl⟩
  | case2 cursor gap more inductionHypothesis =>
      have skips : Gap.Over cursor.place cursor.rest gap := cursor.gap_over
      clear_value gap
      generalize cursor.rest = text at skips ⊢
      cases skips with
      | closed fills =>
          obtain ⟨first, rest, rfl⟩ := List.exists_cons_of_ne_nil more
          obtain ⟨comment?, others⟩ := inductionHypothesis
          rw [ScanStep.ofGap, ScanStep.ofLexeme_next] at others ⊢
          exact ⟨comment?, .lexeme fills others⟩
      | unclosed fills within => exact absurd rfl more

end Cursor

end StagedAnalysis
