import StagedAnalysis.Number.Numeral
import StagedAnalysis.Lexeme.Quoted
import StagedAnalysis.Lexeme.Symbol
import StagedAnalysis.AnalysisError
/-!
Lexemes: the shortest pieces of a text that have a meaning of their own. Every text that is not
empty begins with one. Where no token of the language begins, or where it goes wrong, the lexeme
is still cut off and its flaw is named; a number that runs straight into letters is one flawed
lexeme.
-/
namespace StagedAnalysis

inductive Flaw where
  | unknownCharacter (character : Char)
  | unterminatedString
  | malformedNumber
  deriving DecidableEq

def Flaw.error (flaw : Flaw) (lexeme : String) (span : Span) : AnalysisError :=
  match flaw with
  | unknownCharacter character => .unknownCharacter character span
  | unterminatedString => .unterminatedString lexeme span
  | malformedNumber => .malformedNumber lexeme span

structure Lexeme where
  text : List Char
  sort : Except Flaw Token.Kind
  rest : List Char

namespace Lexeme

def isWordStart (character : Char) : Bool :=
  character.isAlpha || character == '_'

def isWordPart (character : Char) : Bool :=
  character.isAlphanum || character == '_'

def greatestInt : Int := 9223372036854775807

def ofWord (text : List Char) : Lexeme :=
  let word := String.ofList (text.takeWhile isWordPart)
  let kind :=
    match Keyword.ofSpelling? word with
    | some keyword => .keyword keyword
    | none => .identifier word
  ⟨text.takeWhile isWordPart, .ok kind, text.dropWhile isWordPart⟩

/-- What a numeral is when nothing runs into it. -/
def numeralSort (numeral : Numeral) : Except Flaw Token.Kind :=
  if numeral.isWhole then
    let value : Int := Decimal.value numeral.whole
    if value ≤ greatestInt then .ok (.int value) else .error .malformedNumber
  else .ok (.float numeral.toBinary64)

def ofNumeral (text : List Char) : Lexeme :=
  let (numeral, rest) := Numeral.split text
  let tail := rest.takeWhile isWordPart
  ⟨numeral.text ++ tail, if tail.isEmpty then numeralSort numeral else .error .malformedNumber,
    rest.dropWhile isWordPart⟩

def ofQuoted (text : List Char) : Lexeme :=
  let quoted := Quoted.split text
  ⟨'"' :: quoted.text,
    if quoted.closed then .ok (.string (String.ofList quoted.value))
    else .error .unterminatedString,
    quoted.rest⟩

def ofSymbol (first : Char) (rest : List Char) : Lexeme :=
  match Symbol.split? first rest with
  | some (symbol, behind) => ⟨symbol.spelling.toList, .ok (.symbol symbol), behind⟩
  | none => ⟨[first], .error (.unknownCharacter first), rest⟩

def scan (first : Char) (rest : List Char) : Lexeme :=
  if isWordStart first then ofWord (first :: rest)
  else if first.isDigit then ofNumeral (first :: rest)
  else if first = '"' then ofQuoted rest
  else ofSymbol first rest

/-- A lexeme and what is behind it make up the text. -/
theorem scan_append (first : Char) (rest : List Char) :
    (scan first rest).text ++ (scan first rest).rest = first :: rest := by
  unfold scan
  split
  · simp [ofWord]
  · split
    · simp only [ofNumeral, List.append_assoc, List.takeWhile_append_dropWhile]
      exact Numeral.split_append (first :: rest)
    · split
      · subst first
        simp [ofQuoted, Quoted.split_append]
      · unfold ofSymbol
        split
        · rename_i symbol behind found
          exact Symbol.split?_append found
        · rfl

theorem scan_text_ne_nil (first : Char) (rest : List Char) : (scan first rest).text ≠ [] := by
  unfold scan
  split
  · rename_i start
    have part : isWordPart first = true := by
      simp only [isWordStart, isWordPart, Char.isAlphanum, Bool.or_eq_true] at start ⊢
      exact start.imp_left Or.inl
    simp [ofWord, part]
  · split
    · rename_i digit
      simp [ofNumeral, Numeral.split, Numeral.text, digit]
    · split
      · simp [ofQuoted]
      · unfold ofSymbol
        split
        · rename_i symbol behind found
          intro impossible
          cases symbol <;> simp [Symbol.spelling] at impossible
        · simp

theorem scan_text_head (first : Char) (rest : List Char) :
    ∃ behind, (scan first rest).text = first :: behind := by
  have whole := scan_append first rest
  obtain ⟨head, behind, shape⟩ := List.exists_cons_of_ne_nil (scan_text_ne_nil first rest)
  rw [shape, List.cons_append, List.cons.injEq] at whole
  exact ⟨behind, whole.1 ▸ shape⟩

/-- What is behind a lexeme is shorter than the text. -/
theorem scan_rest_lt (first : Char) (rest : List Char) :
    (scan first rest).rest.length < (first :: rest).length := by
  have parts := congrArg List.length (scan_append first rest)
  have some := List.length_pos_iff.mpr (scan_text_ne_nil first rest)
  rw [List.length_append] at parts
  omega

end Lexeme

end StagedAnalysis
