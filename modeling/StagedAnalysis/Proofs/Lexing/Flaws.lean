import Mathlib.Data.List.Forall2
import StagedAnalysis.Proofs.Lexing.Tiling
/-!
Unknown tokens and the faults that tokenizing reports.

Which flaw a lexeme has can be told from its first character: a quote begins a string that does not
end, a digit a number that goes wrong, and any other character stands for itself alone. So the
faults of a source text are one for each unknown token, in order, and behind them at most that of
the comment that is never closed.
-/
namespace StagedAnalysis

/-! ### Flawed lexemes -/

inductive Reports (token : Token) : AnalysisError → Prop
  | unterminatedString {behind : List Char} (shape : token.lexeme.toList = '"' :: behind) :
      Reports token (.unterminatedString token.lexeme token.span)
  | malformedNumber {digit : Char} {behind : List Char}
      (shape : token.lexeme.toList = digit :: behind) (isDigit : digit.isDigit = true) :
      Reports token (.malformedNumber token.lexeme token.span)
  | unknownCharacter {character : Char} (shape : token.lexeme.toList = [character])
      (noQuote : character ≠ '"') (noDigit : character.isDigit = false) :
      Reports token (.unknownCharacter character token.span)

theorem reports_isWarning {tokens : List Token} {flaws : List AnalysisError}
    (reports : List.Forall₂ Reports tokens flaws) : ∀ flaw ∈ flaws, flaw.isWarning = false := by
  induction reports with
  | nil => exact List.forall_mem_nil _
  | cons report _ inductionHypothesis =>
      refine List.forall_mem_cons.mpr ⟨?_, inductionHypothesis⟩
      cases report <;> rfl

namespace Lexeme

theorem flaw_of_ofNumeral {text : List Char} {flaw : Flaw}
    (found : (ofNumeral text).sort = .error flaw) : flaw = .malformedNumber := by
  unfold ofNumeral numeralSort at found
  dsimp only at found
  split at found
  · split at found
    · split at found <;> cases found
      rfl
    · cases found
  · cases found
    rfl

theorem flaw_of_ofQuoted {text : List Char} {flaw : Flaw}
    (found : (ofQuoted text).sort = .error flaw) : flaw = .unterminatedString := by
  unfold ofQuoted at found
  dsimp only at found
  split at found <;> cases found
  rfl

theorem flaw_of_ofSymbol {first : Char} {rest : List Char} {flaw : Flaw}
    (found : (ofSymbol first rest).sort = .error flaw) :
    flaw = .unknownCharacter first ∧ (ofSymbol first rest).text = [first] := by
  unfold ofSymbol at found ⊢
  split at found
  · cases found
  · cases found
    exact ⟨rfl, rfl⟩

/-- The flaw of a lexeme is the one that its first character stands for. -/
theorem scan_reports {first : Char} {rest : List Char} {flaw : Flaw} (span : Span)
    (found : (scan first rest).sort = .error flaw) :
    Reports ⟨.unknown, String.ofList (scan first rest).text, span⟩
      (flaw.error (String.ofList (scan first rest).text) span) := by
  obtain ⟨behind, head⟩ := scan_text_head first rest
  have shape := String.toList_ofList.trans head
  unfold scan at found shape ⊢
  split at found
  · cases found
  · rename_i noWord
    split at found
    · rename_i digit
      rw [if_neg noWord, if_pos digit] at shape ⊢
      rw [flaw_of_ofNumeral found]
      exact .malformedNumber shape digit
    · rename_i noDigit
      split at found
      · rename_i quote
        rw [if_neg noWord, if_neg noDigit, if_pos quote] at shape ⊢
        rw [flaw_of_ofQuoted found]
        exact .unterminatedString (quote ▸ shape)
      · rename_i noQuote
        rw [if_neg noWord, if_neg noDigit, if_neg noQuote]
        obtain ⟨named, only⟩ := flaw_of_ofSymbol found
        rw [named]
        refine .unknownCharacter ?_ noQuote (Bool.eq_false_iff.mpr noDigit)
        rw [only, String.toList_ofList]

end Lexeme

/-! ### Faults -/

theorem ScanStep.ofLexeme_reports (place : Position) (first : Char) (rest : List Char) :
    List.Forall₂ Reports ([(ofLexeme place first rest).token].filter (·.isUnknown))
      (ofLexeme place first rest).faults := by
  unfold ofLexeme
  dsimp only
  split
  · rename_i kind found
    have known : kind ≠ .unknown := (Lexeme.scan_isProper found).1
    simp [Token.isUnknown, known]
  · rename_i flaw found
    exact .cons (Lexeme.scan_reports _ found) .nil

theorem Scans.reports {place : Position} {text : List Char} {steps : List ScanStep}
    {comment? : Option Span} (scans : Scans place text steps comment?) :
    ∃ flaws, steps.flatMap (·.faults) = flaws ++ comment?.toList.map .unterminatedComment ∧
      List.Forall₂ Reports ((steps.map (·.token)).filter (·.isUnknown)) flaws := by
  induction scans with
  | ending fills => exact ⟨[], rfl, .nil⟩
  | unclosed fills within range => exact ⟨[], rfl, .nil⟩
  | @lexeme place text rest first steps comment? fills others inductionHypothesis =>
      obtain ⟨flaws, faults, reports⟩ := inductionHypothesis
      have here := ScanStep.ofLexeme_reports (place.after text) first rest
      refine ⟨(ScanStep.ofLexeme (place.after text) first rest).faults ++ flaws, ?_, ?_⟩
      · rw [List.flatMap_cons, faults, List.append_assoc]
      · rw [List.map_cons, ← List.singleton_append, List.filter_append]
        exact List.rel_append here reports

/-- The comment that is never closed has the range from its opening to the end of the text. -/
theorem Tiles.comment_range {offset : Nat} {text : List Char} {tokens : List Token}
    {comment? : Option Span} {comment : Span} (tiles : Tiles offset text tokens comment?)
    (found : comment? = some comment) :
    ∃ before body, text = before ++ '/' :: '*' :: body ∧ Gap.StaysOpen body ∧
      comment.start = offset + byteSize before ∧ comment.stop = offset + byteSize text := by
  induction tiles with
  | @ending offset gap tail span comment? fills left starts stops =>
      cases left with
      | nothing => cases found
      | comment within opens closes =>
          cases found
          refine ⟨gap, _, rfl, within, opens, ?_⟩
          rw [closes, byteSize_append, Nat.add_assoc]
  | @token offset gap behind token tokens comment? fills goesOn written starts stops others
      inductionHypothesis =>
      obtain ⟨before, body, rfl, within, opens, closes⟩ := inductionHypothesis found
      refine ⟨gap ++ token.lexeme.toList ++ before, body, ?_, within, ?_, ?_⟩
      · simp only [List.append_assoc]
      · simp only [opens, stops, starts, byteSize_append, byteSize_toList]
        omega
      · simp only [closes, stops, starts, byteSize_append, byteSize_toList]
        omega

/-- The faults of a source text are the reports on its unknown tokens, in order, and then that of
the comment in its last gap that is never closed. -/
theorem lexicalErrors_reports (source : String) :
    ∃ flaws comment?, Tiles 0 source.toList (tokenize source) comment? ∧
      lexicalErrors source = flaws ++ comment?.toList.map .unterminatedComment ∧
      List.Forall₂ Reports ((tokenize source).filter (·.isUnknown)) flaws := by
  obtain ⟨comment?, scans⟩ := (Cursor.ofSource source).steps_scans
  obtain ⟨flaws, faults, reports⟩ := scans.reports
  exact ⟨flaws, comment?, scans.tiles, (lexicalErrors_eq source).trans faults, reports⟩

end StagedAnalysis
