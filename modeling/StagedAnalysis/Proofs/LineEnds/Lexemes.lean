import StagedAnalysis.Proofs.Lexing.Extents
import StagedAnalysis.Proofs.LineEnds.Text
import StagedAnalysis.TokenStream
/-!
Gaps and lexemes of texts with the other line ends.
-/
namespace StagedAnalysis

namespace LineEnds

/-! ### Gaps -/

def moveInside (source : List Char) : Gap.Inside → Gap.Inside
  | .nothing => .nothing
  | .lineComment => .lineComment
  | .blockComment opened => .blockComment (movePlace source opened)

def moveGap (source : List Char) (gap : Gap) : Gap :=
  ⟨⟨movePlace source gap.next.place, double gap.next.rest⟩,
    gap.unclosed.map (relocation source).move⟩

theorem after_piece (before piece : List Char) :
    Position.start.after (double (before ++ piece)) =
      (Position.start.after (double before)).after (double piece) := by
  rw [double_append, Position.after_append]

theorem skip_nothing {place : Position} {character : Char} {rest : List Char}
    (noLine : ∀ behind, character = '/' → rest ≠ '/' :: behind)
    (noBlock : ∀ behind, character = '/' → rest ≠ '*' :: behind) :
    Gap.skip place .nothing (character :: rest) =
      if Gap.isSpace character then Gap.skip (place.next character) .nothing rest
      else ⟨⟨place, character :: rest⟩, none⟩ := by
  rw [Gap.skip]
  · exact noLine
  · exact noBlock

theorem skip_blockComment {place opened : Position} {character : Char} {rest : List Char}
    (goesOn : ∀ behind, character = '*' → rest ≠ '/' :: behind) :
    Gap.skip place (.blockComment opened) (character :: rest) =
      Gap.skip (place.next character) (.blockComment opened) rest := by
  rw [Gap.skip]
  exact goesOn

theorem double_ne {text behind : List Char} {character : Char} (inLine : character ≠ '\n')
    (noReturn : character ≠ '\r') (different : ∀ behind, text ≠ character :: behind) :
    double text ≠ character :: behind := by
  intro same
  obtain ⟨rest, shape, _⟩ := double_head inLine noReturn same
  exact different rest shape

theorem skip_double {source before text : List Char} (whole : before ++ text = source)
    (inside : Gap.Inside) :
    Gap.skip (Position.start.after (double before)) (moveInside source inside) (double text) =
      moveGap source (Gap.skip (Position.start.after before) inside text) := by
  generalize here : Position.start.after before = place
  have moved {before text : List Char} {place : Position} (whole : before ++ text = source)
      (here : Position.start.after before = place) :
      Position.start.after (double before) = movePlace source place := by
    rw [← whole, ← here, start_after_double before text]
  -- where skipping goes on behind a piece, the piece joins what is before
  fun_induction Gap.skip place inside text generalizing before with
  | case1 place rest inductionHypothesis =>
      have behind := @inductionHypothesis (before ++ ['/', '/']) (by simpa using whole)
        (by rw [Position.after_append, here])
      rw [after_piece] at behind
      exact behind
  | case2 place rest inductionHypothesis =>
      have behind := @inductionHypothesis (before ++ ['/', '*']) (by simpa using whole)
        (by rw [Position.after_append, here])
      rw [after_piece, moveInside, ← moved whole here] at behind
      exact behind
  | case3 place character rest noLine noBlock separates inductionHypothesis =>
      have behind := @inductionHypothesis (before ++ [character]) (by simpa using whole)
        (by rw [Position.after_append, here]; rfl)
      rw [after_piece] at behind
      by_cases lineEnd : character = '\n'
      · subst lineEnd
        exact behind
      · rw [double_cons lineEnd] at behind ⊢
        rw [moveInside, skip_nothing, if_pos separates]
        · exact behind
        · intro behind same
          exact double_ne (by decide) (by decide) fun rest shape => noLine rest same shape
        · intro behind same
          exact double_ne (by decide) (by decide) fun rest shape => noBlock rest same shape
  | case4 place character rest noLine noBlock different =>
      have inLine : character ≠ '\n' := by
        rintro rfl
        exact different rfl
      rw [double_cons inLine, moveInside, skip_nothing, if_neg different, moveGap,
        double_cons inLine, ← moved whole here]
      · rfl
      · intro behind same
        exact double_ne (by decide) (by decide) fun rest shape => noLine rest same shape
      · intro behind same
        exact double_ne (by decide) (by decide) fun rest shape => noBlock rest same shape
  | case5 place rest inductionHypothesis =>
      have behind := @inductionHypothesis (before ++ ['\n']) (by simpa using whole)
        (by rw [Position.after_append, here]; rfl)
      rw [after_piece] at behind
      exact behind
  | case6 place character rest different inductionHypothesis =>
      have behind := @inductionHypothesis (before ++ [character]) (by simpa using whole)
        (by rw [Position.after_append, here]; rfl)
      rw [after_piece, double_cons different] at behind
      rw [double_cons different, moveInside, Gap.skip, if_neg different]
      exact behind
  | case7 place opened rest inductionHypothesis =>
      have behind := @inductionHypothesis (before ++ ['*', '/']) (by simpa using whole)
        (by rw [Position.after_append, here])
      rw [after_piece] at behind
      exact behind
  | case8 place opened character rest goesOn inductionHypothesis =>
      have behind := @inductionHypothesis (before ++ [character]) (by simpa using whole)
        (by rw [Position.after_append, here]; rfl)
      rw [after_piece] at behind
      by_cases lineEnd : character = '\n'
      · subst lineEnd
        rw [double_newline, moveInside, skip_blockComment, skip_blockComment]
        · exact behind
        · intro _ impossible
          cases impossible
        · intro _ impossible
          cases impossible
      · rw [double_cons lineEnd] at behind ⊢
        rw [moveInside, skip_blockComment]
        · exact behind
        · intro behind same
          exact double_ne (by decide) (by decide) fun rest shape => goesOn rest same shape
  | case9 place opened =>
      rw [moveInside, double_nil, Gap.skip, moveGap, ← moved whole here]
      simp [move_between, ← moved whole here]
  | case10 place inside noComment =>
      cases inside with
      | blockComment opened => exact absurd rfl (noComment opened)
      | _ =>
          rw [moveGap, ← moved whole here]
          rfl

/-! ### Words and numerals -/

section Runs

variable {part : Char → Bool} (noReturn : part '\r' = false) (noFeed : part '\n' = false)

include noReturn noFeed

theorem takeWhile_double (text : List Char) :
    (double text).takeWhile part = text.takeWhile part := by
  induction text with
  | nil => rfl
  | cons character text inductionHypothesis =>
      by_cases lineEnd : character = '\n'
      · subst lineEnd
        simp [noReturn, noFeed]
      · rw [double_cons lineEnd, List.takeWhile_cons, List.takeWhile_cons, inductionHypothesis]

theorem dropWhile_double (text : List Char) :
    (double text).dropWhile part = double (text.dropWhile part) := by
  induction text with
  | nil => rfl
  | cons character text inductionHypothesis =>
      by_cases lineEnd : character = '\n'
      · subst lineEnd
        simp [noReturn, noFeed]
      · rw [double_cons lineEnd, List.dropWhile_cons, List.dropWhile_cons, inductionHypothesis]
        split
        · rfl
        · rw [double_cons lineEnd]

end Runs

theorem splitFraction_double (text : List Char) :
    Numeral.splitFraction (double text) =
      ((Numeral.splitFraction text).1, double (Numeral.splitFraction text).2) := by
  fun_cases Numeral.splitFraction text with
  | case1 digit rest isDigit =>
      have inLine : digit ≠ '\n' := by
        rintro rfl
        cases isDigit
      rw [double_cons (by decide), double_cons inLine, Numeral.splitFraction, if_pos isDigit,
        takeWhile_double rfl rfl, dropWhile_double rfl rfl]
  | case2 digit rest noDigit =>
      by_cases lineEnd : digit = '\n'
      · subst lineEnd
        rfl
      · rw [double_cons (by decide), double_cons lineEnd, Numeral.splitFraction, if_neg noDigit]
  | case3 text noPoint =>
      rw [Numeral.splitFraction]
      intro digit behind same
      obtain ⟨rest, shape, others⟩ := double_head (by decide) (by decide) same
      cases rest with
      | nil => cases others
      | cons digit rest => exact noPoint digit rest shape

theorem splitSign_double (text : List Char) :
    Numeral.splitSign (double text) =
      ((Numeral.splitSign text).1, double (Numeral.splitSign text).2) := by
  fun_cases Numeral.splitSign text with
  | case1 rest => rfl
  | case2 rest => rfl
  | case3 text noPlus noMinus =>
      rw [Numeral.splitSign]
      · exact fun behind => double_ne (by decide) (by decide) fun rest => noPlus rest
      · exact fun behind => double_ne (by decide) (by decide) fun rest => noMinus rest

theorem splitExponent_double (text : List Char) :
    Numeral.splitExponent (double text) =
      ((Numeral.splitExponent text).1, double (Numeral.splitExponent text).2) := by
  cases text with
  | nil => rfl
  | cons mark rest =>
      by_cases lineEnd : mark = '\n'
      · subst lineEnd
        rfl
      · rw [double_cons lineEnd, Numeral.splitExponent, Numeral.splitExponent]
        simp only [splitSign_double, @takeWhile_double Char.isDigit rfl rfl,
          @dropWhile_double Char.isDigit rfl rfl]
        split
        · rfl
        · rw [double_cons lineEnd]

theorem numeral_split_double (text : List Char) :
    Numeral.split (double text) = ((Numeral.split text).1, double (Numeral.split text).2) := by
  simp only [Numeral.split, @takeWhile_double Char.isDigit rfl rfl,
    @dropWhile_double Char.isDigit rfl rfl, splitFraction_double, splitExponent_double]

/-! ### Lexemes -/

/-- A lexeme and the one in its place in the doubled text. A string that does not end takes the
carriage return at the end of its line with it; every other lexeme is the same. -/
inductive Corresponds : Lexeme → Lexeme → Prop
  | same {text rest : List Char} {sort : Except Flaw Token.Kind} :
      Corresponds ⟨text, sort, rest⟩ ⟨text, sort, double rest⟩
  | cut {text rest : List Char} :
      Corresponds ⟨'"' :: text, .error .unterminatedString, '\n' :: rest⟩
        ⟨'"' :: (text ++ ['\r']), .error .unterminatedString, '\n' :: double rest⟩

theorem ofWord_corresponds (text : List Char) :
    Corresponds (Lexeme.ofWord text) (Lexeme.ofWord (double text)) := by
  rw [Lexeme.ofWord, Lexeme.ofWord, takeWhile_double rfl rfl, dropWhile_double rfl rfl]
  exact .same

theorem ofNumeral_corresponds (text : List Char) :
    Corresponds (Lexeme.ofNumeral text) (Lexeme.ofNumeral (double text)) := by
  simp only [Lexeme.ofNumeral, numeral_split_double, @takeWhile_double Lexeme.isWordPart rfl rfl,
    @dropWhile_double Lexeme.isWordPart rfl rfl]
  exact .same

theorem split?_double (first : Char) (rest : List Char) :
    Symbol.split? first (double rest) =
      (Symbol.split? first rest).map fun (symbol, behind) => (symbol, double behind) := by
  cases rest with
  | nil =>
      rw [double_nil, Symbol.split?]
      cases Symbol.ofCharacter? first <;> rfl
  | cons second rest =>
      by_cases lineEnd : second = '\n'
      · subst lineEnd
        rw [double_newline, Symbol.split?, Symbol.split?,
          Symbol.ofPair?_eq_none first (by decide), Symbol.ofPair?_eq_none first (by decide)]
        cases Symbol.ofCharacter? first <;> rfl
      · rw [double_cons lineEnd, Symbol.split?, Symbol.split?]
        cases Symbol.ofPair? first second with
        | some symbol => rfl
        | none =>
            cases Symbol.ofCharacter? first with
            | none => rfl
            | some symbol =>
                simp only [Option.map_some, double_cons lineEnd]

theorem ofSymbol_corresponds (first : Char) (rest : List Char) :
    Corresponds (Lexeme.ofSymbol first rest) (Lexeme.ofSymbol first (double rest)) := by
  rw [Lexeme.ofSymbol, Lexeme.ofSymbol, split?_double]
  cases Symbol.split? first rest with
  | none => exact .same
  | some found => exact .same

inductive QuotedCorresponds : Quoted → Quoted → Prop
  | same {text value rest : List Char} {closed : Bool} :
      QuotedCorresponds ⟨text, value, closed, rest⟩ ⟨text, value, closed, double rest⟩
  | cut {text value other rest : List Char} :
      QuotedCorresponds ⟨text, value, false, '\n' :: rest⟩
        ⟨text ++ ['\r'], other, false, '\n' :: double rest⟩

theorem QuotedCorresponds.prepend {first second : Quoted}
    (corresponds : QuotedCorresponds first second) (text : List Char) (character : Char) :
    QuotedCorresponds (first.prepend text character) (second.prepend text character) := by
  cases corresponds with
  | same => exact .same
  | cut =>
      rw [Quoted.prepend, Quoted.prepend, ← List.append_assoc]
      exact .cut

theorem quoted_split_double (text : List Char) :
    QuotedCorresponds (Quoted.split text) (Quoted.split (double text)) := by
  fun_induction Quoted.split text with
  | case1 => exact .same
  | case2 rest => exact .same
  | case3 rest => exact @QuotedCorresponds.cut [] [] ['\r'] rest
  | case4 rest => exact @QuotedCorresponds.cut ['\\'] ['\\'] ['\r'] rest
  | case5 character rest inLine inductionHypothesis =>
      rw [double_cons (by decide), double_cons inLine, Quoted.split]
      · exact inductionHypothesis.prepend _ _
      · exact inLine
  | case6 character rest noQuote noFeed noFeedBehind noBackslash inductionHypothesis =>
      have last : character = '\\' → double rest = [] := by
        intro backslash
        cases rest with
        | nil => rfl
        | cons next rest => exact (noBackslash next rest backslash rfl).elim
      rw [double_cons noFeed, Quoted.split]
      · exact inductionHypothesis.prepend _ _
      · exact noQuote
      · exact noFeed
      · intro behind backslash shape
        cases (last backslash).symm.trans shape
      · intro next behind backslash shape
        cases (last backslash).symm.trans shape

theorem ofQuoted_corresponds (text : List Char) :
    Corresponds (Lexeme.ofQuoted text) (Lexeme.ofQuoted (double text)) := by
  rw [Lexeme.ofQuoted, Lexeme.ofQuoted]
  have split := quoted_split_double text
  generalize Quoted.split text = first at split ⊢
  generalize Quoted.split (double text) = second at split ⊢
  cases split with
  | same => exact .same
  | cut => exact .cut

theorem scan_corresponds {first : Char} (inLine : first ≠ '\n') (rest : List Char) :
    Corresponds (Lexeme.scan first rest) (Lexeme.scan first (double rest)) := by
  unfold Lexeme.scan
  rw [← double_cons inLine]
  split
  · exact ofWord_corresponds _
  · split
    · exact ofNumeral_corresponds _
    · split
      · exact ofQuoted_corresponds rest
      · exact ofSymbol_corresponds first rest

end LineEnds

end StagedAnalysis
