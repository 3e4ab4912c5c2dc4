import StagedAnalysis.Proofs.Lexing.Extents
import StagedAnalysis.Proofs.Lexing.Tiling
import StagedAnalysis.Proofs.Lexing.Lexemes
/-!
String literals and their values.

Between its quotes a literal has a body. The body says what the value is, character by character from the
left: a backslash and the character behind it stand for one character, and every other character stands for
itself. What is read as a literal has such a body, and every text is the value of the literal that is
written with a backslash wherever one is needed.
-/
namespace StagedAnalysis

namespace Quoted

/-! ### Bodies -/

inductive StandsFor : Char → Char → Prop
  | lineFeed : StandsFor 'n' '\n'
  | carriageReturn : StandsFor 'r' '\r'
  | tab : StandsFor 't' '\t'
  | nul : StandsFor '0' '\x00'
  | itself {character : Char} (other : character ∉ ['n', 'r', 't', '0']) :
      StandsFor character character

/-- The bodies of literals with their values. No quote stands in a body but behind a backslash. -/
inductive Body : List Char → List Char → Prop
  | nil : Body [] []
  | plain {character : Char} {body value : List Char} (noQuote : character ≠ '"')
      (noBackslash : character ≠ '\\') (others : Body body value) :
      Body (character :: body) (character :: value)
  | escaped {character meaning : Char} {body value : List Char} (stands : StandsFor character meaning)
      (others : Body body value) : Body ('\\' :: character :: body) (meaning :: value)

theorem standsFor_iff {character meaning : Char} :
    StandsFor character meaning ↔ unescape character = meaning := by
  constructor
  · intro stands
    cases stands with
    | itself other =>
        simp only [List.mem_cons, List.not_mem_nil, or_false, not_or] at other
        simp [unescape, other]
    | _ => rfl
  · rintro rfl
    unfold unescape
    split_ifs with feed ret tab nul
    · exact feed ▸ .lineFeed
    · exact ret ▸ .carriageReturn
    · exact tab ▸ .tab
    · exact nul ▸ .nul
    · exact .itself (by simp [feed, ret, tab, nul])

/-- A body and the quote behind it are read up to the quote. -/
theorem split_of_body {body value : List Char} (reads : Body body value) (inLine : '\n' ∉ body)
    (rest : List Char) : split (body ++ '"' :: rest) = ⟨body ++ ['"'], value, true, rest⟩ := by
  induction reads with
  | nil => rfl
  | @plain character body value noQuote noBackslash others inductionHypothesis =>
      rw [List.mem_cons, not_or] at inLine
      rw [List.cons_append, split, inductionHypothesis inLine.2]
      · rfl
      · exact noQuote
      · exact Ne.symm inLine.1
      · exact fun _ same => absurd same noBackslash
      · exact fun _ _ same => absurd same noBackslash
  | @escaped character meaning body value stands others inductionHypothesis =>
      simp only [List.mem_cons, not_or] at inLine
      rw [List.cons_append, List.cons_append, split, inductionHypothesis inLine.2.2,
        standsFor_iff.mp stands]
      · rfl
      · exact Ne.symm inLine.2.1

/-- What is read up to a closing quote is a body. -/
theorem body_of_closed {text : List Char} (closed : (split text).closed = true) :
    ∃ body, (split text).text = body ++ ['"'] ∧ Body body (split text).value := by
  fun_induction split text with
  | case1 | case3 | case4 => cases closed
  | case2 rest => exact ⟨[], rfl, .nil⟩
  | case5 character rest inLine inductionHypothesis =>
      obtain ⟨body, shape, reads⟩ := inductionHypothesis closed
      refine ⟨'\\' :: character :: body, ?_, .escaped (standsFor_iff.mpr rfl) reads⟩
      rw [prepend, shape]
      rfl
  | case6 character rest noQuote noFeed noFeedBehind noBackslash inductionHypothesis =>
      have noBackslash : character ≠ '\\' := by
        rintro rfl
        cases rest with
        | nil => cases closed
        | cons next rest => exact noBackslash next rest rfl rfl
      obtain ⟨body, shape, reads⟩ := inductionHypothesis closed
      refine ⟨character :: body, ?_, .plain noQuote noBackslash reads⟩
      rw [prepend, shape]
      rfl

/-! ### Writing -/

/-- How a character is written in a body: with a backslash where it would not stand for itself, or would
not be seen. -/
def escape (character : Char) : List Char :=
  if character = '\\' then ['\\', '\\']
  else if character = '"' then ['\\', '"']
  else if character = '\n' then ['\\', 'n']
  else if character = '\r' then ['\\', 'r']
  else if character = '\t' then ['\\', 't']
  else if character = '\x00' then ['\\', '0']
  else [character]

def literal (value : String) : String :=
  String.ofList ('"' :: (value.toList.flatMap escape ++ ['"']))

theorem Body.escape_append {body value : List Char} (reads : Body body value) (character : Char) :
    Body (escape character ++ body) (character :: value) := by
  unfold escape
  split_ifs with backslash quote feed ret tab nul
  · subst backslash
    exact .escaped (.itself (by decide)) reads
  · subst quote
    exact .escaped (.itself (by decide)) reads
  · exact feed ▸ .escaped .lineFeed reads
  · exact ret ▸ .escaped .carriageReturn reads
  · exact tab ▸ .escaped .tab reads
  · exact nul ▸ .escaped .nul reads
  · exact .plain quote backslash reads

theorem body_escape (value : List Char) : Body (value.flatMap escape) value := by
  induction value with
  | nil => exact .nil
  | cons character value inductionHypothesis => exact inductionHypothesis.escape_append character

theorem newline_notMem_escape (character : Char) : '\n' ∉ escape character := by
  unfold escape
  split_ifs with backslash quote feed ret tab nul
  all_goals simp [eq_comm]
  exact feed

theorem newline_notMem_flatMap_escape (value : List Char) : '\n' ∉ value.flatMap escape := by
  rw [List.mem_flatMap]
  rintro ⟨character, _, found⟩
  exact newline_notMem_escape character found

end Quoted

/-! ### Tokens -/

theorem Lexeme.scan_quote (rest : List Char) : scan '"' rest = ofQuoted rest :=
  rfl

/-- Where a body stands between two quotes, that is the lexeme. -/
theorem Lexeme.scan_of_body {body value : List Char} (reads : Quoted.Body body value)
    (inLine : '\n' ∉ body) (rest : List Char) :
    scan '"' (body ++ '"' :: rest) =
      ⟨'"' :: (body ++ ['"']), .ok (.string (String.ofList value)), rest⟩ := by
  rw [scan_quote, ofQuoted, Quoted.split_of_body reads inLine]
  rfl

theorem Quoted.steps_literal (value : String) :
    ∃ span last, (Cursor.ofSource (literal value)).steps =
      [⟨⟨.string value, literal value, span⟩, [], ⟨last, []⟩⟩, .ofEnd ⟨⟨last, []⟩, none⟩] := by
  have scanned := Lexeme.scan_of_body (body_escape value.toList)
    (newline_notMem_flatMap_escape value.toList) []
  have stops : Gap.Stops ('"' :: (value.toList.flatMap escape ++ ['"'])) :=
    ⟨rfl, fun slash => absurd slash (by decide)⟩
  rw [Cursor.ofSource, literal, String.toList_ofList, Cursor.steps_of_stops stops, ScanStep.ofLexeme,
    scanned, String.ofList_toList]
  exact ⟨_, _, congrArg _ (Cursor.steps_nil _)⟩

/-- Every text is the value of the literal that is written for it, and the literal is one token without a
fault. Every literal in a source text has a body between two quotes, in one line, and its value is what the
body says. -/
theorem tokenize_strings (value source : String) :
    (∃ span ending, tokenize (Quoted.literal value) =
        [⟨.string value, Quoted.literal value, span⟩, .closing ending]) ∧
      lexicalErrors (Quoted.literal value) = [] ∧
      ∀ token ∈ tokenize source, ∀ content, token.kind = .string content →
        ∃ body, token.lexeme.toList = '"' :: (body ++ ['"']) ∧ '\n' ∉ body ∧
          Quoted.Body body content.toList := by
  obtain ⟨span, last, steps⟩ := Quoted.steps_literal value
  refine ⟨⟨span, .between last last, ?_⟩, ?_, ?_⟩
  · rw [tokenize_eq, steps]
    rfl
  · rw [lexicalErrors_eq, steps]
    rfl
  · intro token member content isString
    have goesOn : token.isEnd = false := by
      rw [Token.isEnd, isString]
      rfl
    obtain ⟨step, _, rfl, before, first, rest, _, _, rfl⟩ := exists_step_of_mem member goesOn
    have sort := ScanStep.sort_of_ofLexeme (ne_of_eq_of_ne isString (by simp))
    rw [isString] at sort
    cases Lexeme.scan_tells sort with
    | string quote closed =>
        subst quote
        obtain ⟨body, shape, reads⟩ := Quoted.body_of_closed closed
        have inLine := Quoted.newline_notMem_split rest
        rw [shape, List.mem_append, not_or] at inLine
        refine ⟨body, ?_, inLine.1, ?_⟩
        · rw [(ScanStep.ofLexeme_token _ _ _).1, String.toList_ofList, Lexeme.scan_quote,
            Lexeme.ofQuoted, shape]
        · rw [String.toList_ofList]
          exact reads

/-- A quote behind two backslashes ends the literal, a quote behind one does not. -/
theorem tokenize_strings_backslashes :
    let source := "x \"\\q\\\\\" \"\\\""
    let token : Token := ⟨.string "q\\", "\"\\q\\\\\"", ⟨2, 8, 1, 3⟩⟩
    token ∈ tokenize source ∧ token.kind = .string "q\\" ∧
      lexicalErrors source = [.unterminatedString "\"\\\"" ⟨9, 12, 1, 10⟩] ∧
      Quoted.literal "\\\"\n\x00" = "\"\\\\\\\"\\n\\0\"" ∧
      lexicalErrors (Quoted.literal "\\\"\n\x00") = [] ∧
      Quoted.Body ['\\', 'q', '\\', '\\'] ['q', '\\'] := by
  intro source token
  have tokens : token ∈ tokenize source ∧
      lexicalErrors source = [.unterminatedString "\"\\\"" ⟨9, 12, 1, 10⟩] := by decide +kernel
  obtain ⟨_, noFaults, literals⟩ := tokenize_strings "\\\"\n\x00" source
  obtain ⟨body, written, _, reads⟩ := literals token tokens.1 _ rfl
  have quoted : token.lexeme.toList = '"' :: (['\\', 'q', '\\', '\\'] ++ ['"']) := by decide
  obtain rfl := List.append_cancel_right (List.cons.inj (quoted.symm.trans written)).2
  exact ⟨tokens.1, rfl, tokens.2, by decide, noFaults, reads⟩

end StagedAnalysis
