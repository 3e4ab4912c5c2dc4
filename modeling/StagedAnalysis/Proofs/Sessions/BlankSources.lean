import StagedAnalysis.Proofs.Lexing.Concatenation
import StagedAnalysis.Proofs.Sessions.Refusals
/-!
Source texts that are refused for being empty.

A session takes a text for empty if all of its characters are blank, and more characters are blank than
the four that separate tokens. Tokenizing such a text gives one unknown token for each character that is
none of the four, at the place of that character, and nothing else. So the text is empty for the
tokenizer as well just where it has no such character.
-/
namespace StagedAnalysis

namespace Text

def separators : List Char := [' ', '\t', '\r', '\n']

def strangers (place : Position) : List Char → List (Position × Char)
  | [] => []
  | character :: rest =>
    if character ∈ separators then strangers (place.next character) rest
    else (place, character) :: strangers (place.next character) rest

theorem isSpace_iff {character : Char} :
    Gap.isSpace character = true ↔ character ∈ separators := by
  simp [Gap.isSpace, separators, or_assoc]

theorem strangers_eq_nil_iff {place : Position} {text : List Char} :
    strangers place text = [] ↔ ∀ character ∈ text, character ∈ separators := by
  induction text generalizing place with
  | nil => simp [strangers]
  | cons character rest inductionHypothesis =>
      rw [strangers, List.forall_mem_cons]
      by_cases separates : character ∈ separators
      · rw [if_pos separates, inductionHypothesis, and_iff_right separates]
      · rw [if_neg separates]
        exact iff_of_false (List.cons_ne_nil _ _) fun all => separates all.1

/-- No blank character is a letter, a digit or a sign. -/
theorem toNat_of_isBlankCharacter {character : Char} (blank : isBlankCharacter character = true) :
    character.toNat ≤ 32 ∨ 127 ≤ character.toNat := by
  simp only [isBlankCharacter, blankRanges, List.any_cons, List.any_nil, Bool.or_eq_true,
    Bool.and_eq_true, decide_eq_true_eq, Bool.or_false] at blank
  omega

end Text

/-! ### Characters that begin no token -/

section Outside

variable {character : Char} (outside : character.toNat ≤ 32 ∨ 127 ≤ character.toNat)

include outside

theorem Symbol.split?_of_outside (rest : List Char) : split? character rest = none := by
  rw [split?_eq_none_iff]
  refine ⟨fun second _ => ?_, ?_⟩
  · unfold ofPair?
    split
    case h_11 => rfl
    all_goals simp at outside
  · unfold ofCharacter?
    split
    case h_15 => rfl
    all_goals simp at outside

namespace Lexeme

theorem ne_of_outside {visible : Char} (low : 32 < visible.toNat) (high : visible.toNat < 127) :
    character ≠ visible := by
  rintro rfl
  omega

/-- No row of visible characters has the character in it. -/
theorem not_between_of_outside {least greatest : Char} (low : 32 < least.toNat)
    (high : greatest.toNat < 127) :
    ¬(least.val ≤ character.val ∧ character.val ≤ greatest.val) := by
  rintro ⟨above, below⟩
  have above : least.toNat ≤ character.toNat := above
  have below : character.toNat ≤ greatest.toNat := below
  omega

theorem isDigit_of_outside : character.isDigit = false := by
  refine Bool.eq_false_iff.mpr fun digit => ?_
  exact @not_between_of_outside _ outside '0' '9' (by decide) (by decide)
    ((Bool.and_eq_true_iff.mp digit).imp of_decide_eq_true of_decide_eq_true)

theorem isWordStart_of_outside : isWordStart character = false := by
  rw [isWordStart, Bool.or_eq_false_iff, beq_eq_false_iff_ne]
  refine ⟨Bool.eq_false_iff.mpr fun letter => ?_, ne_of_outside outside (by decide) (by decide)⟩
  rcases Bool.or_eq_true_iff.mp letter with upper | lower
  · exact @not_between_of_outside _ outside 'A' 'Z' (by decide) (by decide)
      (of_decide_eq_true upper)
  · exact @not_between_of_outside _ outside 'a' 'z' (by decide) (by decide)
      ((Bool.and_eq_true_iff.mp lower).imp of_decide_eq_true of_decide_eq_true)

/-- A character that is not visible is a lexeme of its own, and no token. -/
theorem scan_of_outside (rest : List Char) :
    scan character rest = ⟨[character], .error (.unknownCharacter character), rest⟩ := by
  rw [scan, isWordStart_of_outside outside, if_neg Bool.false_ne_true, isDigit_of_outside outside,
    if_neg Bool.false_ne_true, if_neg (ne_of_outside outside (by decide) (by decide)), ofSymbol,
    Symbol.split?_of_outside outside]

end Lexeme

end Outside

/-! ### Blank texts -/

def Token.ofStranger : Position × Char → Token
  | (place, character) =>
    ⟨.unknown, String.ofList [character], .between place (place.next character)⟩

def AnalysisError.ofStranger : Position × Char → AnalysisError
  | (place, character) => .unknownCharacter character (.between place (place.next character))

/-- A character that is not visible and no space is cut off by the next step. -/
theorem Cursor.steps_of_outside {character : Char}
    (outside : character.toNat ≤ 32 ∨ 127 ≤ character.toNat)
    (noSpace : Gap.isSpace character = false) (place : Position) (rest : List Char) :
    (⟨place, character :: rest⟩ : Cursor).steps =
      ⟨.ofStranger (place, character), [.ofStranger (place, character)],
        ⟨place.next character, rest⟩⟩ :: (⟨place.next character, rest⟩ : Cursor).steps := by
  have stops : Gap.Stops (character :: rest) :=
    ⟨noSpace, fun slash => absurd slash (Lexeme.ne_of_outside outside (by decide) (by decide))⟩
  rw [steps_of_stops stops, ScanStep.ofLexeme, Lexeme.scan_of_outside outside]
  rfl

/-- Tokenizing blank text finds its strangers and the end. -/
theorem Cursor.steps_of_blank {text : List Char}
    (blank : ∀ character ∈ text, Text.isBlankCharacter character = true) (place : Position) :
    let last := place.after text
    (⟨place, text⟩ : Cursor).steps.map (·.token) =
        (Text.strangers place text).map .ofStranger ++ [.closing (.between last last)] ∧
      (⟨place, text⟩ : Cursor).steps.flatMap (·.faults) =
        (Text.strangers place text).map .ofStranger := by
  induction text generalizing place with
  | nil =>
      rw [steps_nil]
      exact ⟨rfl, rfl⟩
  | cons character rest inductionHypothesis =>
      obtain ⟨blankFirst, blankRest⟩ := List.forall_mem_cons.mp blank
      have outside := Text.toNat_of_isBlankCharacter blankFirst
      obtain ⟨tokens, faults⟩ := inductionHypothesis blankRest (place.next character)
      rw [Text.strangers]
      by_cases separates : character ∈ Text.separators
      · rw [steps_of_space (Text.isSpace_iff.mpr separates), if_pos separates]
        exact ⟨tokens, faults⟩
      · have noSpace : Gap.isSpace character = false :=
          Bool.eq_false_iff.mpr (mt Text.isSpace_iff.mp separates)
        rw [steps_of_outside outside noSpace, if_neg separates, List.map_cons, List.map_cons,
          List.flatMap_cons, tokens, faults]
        exact ⟨rfl, rfl⟩

/-! ### Refused source texts -/

theorem tokenize_of_blank {source : String} (blank : Text.isBlank source = true) :
    let last := Position.start.after source.toList
    tokenize source = (Text.strangers .start source.toList).map .ofStranger ++
        [.closing (.between last last)] ∧
      lexicalErrors source = (Text.strangers .start source.toList).map .ofStranger := by
  rw [tokenize_eq, lexicalErrors_eq]
  exact Cursor.steps_of_blank (List.all_eq_true.mp blank) .start

namespace Session

theorem run_lexical_refused_iff (session : Session) :
    (session.run .lexical).1 = .error .emptySource ↔ Text.isBlank session.source = true := by
  have cannot : session.canRun .lexical = false ↔ Text.isBlank session.source = true := by
    rw [← Bool.not_eq_false']
    rfl
  rw [← cannot, ← run_refused_iff]
  constructor
  · exact fun refused => ⟨_, refused⟩
  · rintro ⟨error, refused⟩
    rw [refused, (run_of_refused refused).1]
    rfl

/-- A source text is refused for being empty if and only if all of its characters are blank. Then
tokenizing it finds an unknown character wherever a blank character is none of the four that separate
tokens, and nothing else but the end. So the text is empty for the tokenizer as well if and only if
all of its characters separate tokens. -/
theorem refused_as_empty (session : Session) :
    let text := session.source.toList
    let strangers := Text.strangers .start text
    let last := Position.start.after text
    ((session.run .lexical).1 = .error .emptySource ↔
      ∀ character ∈ text, Text.isBlankCharacter character = true) ∧
    ((session.run .lexical).1 = .error .emptySource →
      tokenize session.source = strangers.map .ofStranger ++ [.closing (.between last last)] ∧
      lexicalErrors session.source = strangers.map .ofStranger ∧
      (tokenize session.source = [.closing (.between last last)] ∧
          lexicalDiagnostics session.source = [] ↔
        ∀ character ∈ text, character ∈ Text.separators)) := by
  intro text strangers last
  rw [run_lexical_refused_iff]
  refine ⟨List.all_eq_true, fun blank => ?_⟩
  obtain ⟨tokens, errors⟩ := tokenize_of_blank blank
  refine ⟨tokens, errors, ?_⟩
  rw [tokens, lexicalDiagnostics, errors, List.map_eq_nil_iff, List.map_eq_nil_iff,
    ← Text.strangers_eq_nil_iff]
  refine ⟨And.right, fun none => ⟨?_, none⟩⟩
  rw [none]
  rfl

/-- A space that must not be broken and a wide one are unknown characters in two lines. -/
theorem refused_as_empty_two_lines :
    let wide := ofSource " \u00a0\n\u2003"
    let plain := ofSource " \t\r\n"
    (wide.run .lexical).1 = .error .emptySource ∧
      tokenize wide.source =
        [⟨.unknown, "\u00a0", ⟨1, 3, 1, 2⟩⟩, ⟨.unknown, "\u2003", ⟨4, 7, 2, 1⟩⟩,
          .closing ⟨7, 7, 2, 2⟩] ∧
      lexicalErrors wide.source =
        [.unknownCharacter '\u00a0' ⟨1, 3, 1, 2⟩, .unknownCharacter '\u2003' ⟨4, 7, 2, 1⟩] ∧
      (plain.run .lexical).1 = .error .emptySource ∧
      tokenize plain.source = [.closing ⟨4, 4, 2, 1⟩] ∧ lexicalDiagnostics plain.source = [] := by
  intro wide plain
  have wideBlank : Text.isBlank wide.source = true := by decide
  have plainBlank : Text.isBlank plain.source = true := by decide
  have wideRefused := (refused_as_empty wide).1.mpr (List.all_eq_true.mp wideBlank)
  have plainRefused := (refused_as_empty plain).1.mpr (List.all_eq_true.mp plainBlank)
  obtain ⟨tokens, errors, _⟩ := (refused_as_empty wide).2 wideRefused
  have separators : plain.source.toList = Text.separators := by decide
  obtain ⟨noToken, noFinding⟩ := ((refused_as_empty plain).2 plainRefused).2.2.mpr
    fun _ member => separators ▸ member
  exact ⟨wideRefused, tokens.trans (by decide), errors.trans (by decide), plainRefused,
    noToken.trans (by decide), noFinding⟩

/-- The shortest text that is refused for being empty although it has an unknown character. -/
theorem refused_no_break_space :
    let source := "\u00a0"
    ((ofSource source).run .lexical).1 = .error .emptySource ∧
      tokenize source = [⟨.unknown, source, ⟨0, 2, 1, 1⟩⟩, .closing ⟨2, 2, 1, 2⟩] ∧
      lexicalErrors source = [.unknownCharacter '\u00a0' ⟨0, 2, 1, 1⟩] ∧
      (lexicalDiagnostics source).any (·.isError) = true := by
  intro source
  have blank : Text.isBlank source = true := by decide
  obtain ⟨tokens, errors⟩ := tokenize_of_blank blank
  refine ⟨(run_lexical_refused_iff _).mpr blank, tokens.trans (by decide),
    errors.trans (by decide), ?_⟩
  rw [lexicalDiagnostics, errors]
  decide

end Session

end StagedAnalysis
