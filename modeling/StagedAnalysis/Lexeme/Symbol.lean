import StagedAnalysis.Token
/-!
Symbols of one and of two characters. The longer symbol is taken where both are possible.
-/
namespace StagedAnalysis.Symbol

def ofPair? : Char → Char → Option Symbol
  | '+', '=' => some .plusAssign
  | '-', '=' => some .minusAssign
  | '*', '=' => some .starAssign
  | '/', '=' => some .slashAssign
  | '=', '=' => some .equal
  | '!', '=' => some .notEqual
  | '<', '=' => some .lessEqual
  | '>', '=' => some .greaterEqual
  | '&', '&' => some .andAnd
  | '|', '|' => some .orOr
  | _, _ => none

def ofCharacter? : Char → Option Symbol
  | '+' => some .plus
  | '-' => some .minus
  | '*' => some .star
  | '/' => some .slash
  | '%' => some .percent
  | '=' => some .assign
  | '!' => some .bang
  | '<' => some .less
  | '>' => some .greater
  | '(' => some .leftParen
  | ')' => some .rightParen
  | '\x7b' => some .leftBrace
  | '\x7d' => some .rightBrace
  | ';' => some .semicolon
  | _ => none

/-- The longest symbol that begins with `first` in front of `rest`, with what is behind it. -/
def split? (first : Char) : List Char → Option (Symbol × List Char)
  | second :: rest =>
    match ofPair? first second with
    | some symbol => some (symbol, rest)
    | none => (ofCharacter? first).map (·, second :: rest)
  | [] => (ofCharacter? first).map (·, [])

theorem spelling_of_ofPair? {first second : Char} {symbol : Symbol}
    (found : ofPair? first second = some symbol) : symbol.spelling.toList = [first, second] := by
  unfold ofPair? at found
  split at found <;> simp_all <;> subst found <;> rfl

theorem spelling_of_ofCharacter? {first : Char} {symbol : Symbol}
    (found : ofCharacter? first = some symbol) : symbol.spelling.toList = [first] := by
  unfold ofCharacter? at found
  split at found <;> simp_all <;> subst found <;> rfl

/-- The spelling of the symbol and what is behind it make up the text. -/
theorem split?_append {first : Char} {text rest : List Char} {symbol : Symbol}
    (found : split? first text = some (symbol, rest)) :
    symbol.spelling.toList ++ rest = first :: text := by
  cases text with
  | nil =>
    obtain ⟨single, known, same⟩ := Option.map_eq_some_iff.mp found
    cases same
    simp [spelling_of_ofCharacter? known]
  | cons second behind =>
    simp only [split?] at found
    cases pair : ofPair? first second with
    | some double =>
      rw [pair] at found
      cases found
      simp [spelling_of_ofPair? pair]
    | none =>
      rw [pair] at found
      obtain ⟨single, known, same⟩ := Option.map_eq_some_iff.mp found
      cases same
      simp [spelling_of_ofCharacter? known]

end StagedAnalysis.Symbol
