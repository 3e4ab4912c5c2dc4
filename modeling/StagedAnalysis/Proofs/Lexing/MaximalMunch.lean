import StagedAnalysis.Proofs.Lexing.Extents
import StagedAnalysis.Proofs.Lexing.Lexemes
import StagedAnalysis.Proofs.Lexing.Tiling
/-!
Tokens are as long as they can be.

Where a token stands in a source text, no longer text that stands there is a token of the language as a
whole. A lexeme that is no token of the language is no shorter than any token could be either.
-/
namespace StagedAnalysis

def StandsAt (source : String) (offset : Nat) (text : String) : Prop :=
  ∃ before behind, before ++ (text.toList ++ behind) = source.toList ∧ byteSize before = offset

/-- The text is a token of the language as a whole: on its own it is tokenized to one token that covers
it all, and the end of the input. -/
def IsToken (text : String) : Prop :=
  ∃ token ending : Token, tokenize text = [token, ending] ∧ ending.isEnd = true ∧
    token.isEnd = false ∧ token.isUnknown = false ∧
    token.span.start = 0 ∧ token.span.stop = text.utf8ByteSize

/-! ### Places in bytes -/

theorem byteSize_eq_zero {text : List Char} (none : byteSize text = 0) : text = [] :=
  String.ofList_eq_empty_iff.mp (String.utf8ByteSize_eq_zero_iff.mp none)

/-- Not two places of a text have the same number of bytes in front of them. -/
theorem append_inj_of_byteSize {before before' behind behind' : List Char}
    (same : before ++ behind = before' ++ behind') (size : byteSize before = byteSize before') :
    before = before' ∧ behind = behind' := by
  rcases List.append_eq_append_iff.mp same with ⟨between, rfl, rfl⟩ | ⟨between, rfl, rfl⟩
  all_goals
    rw [byteSize_append] at size
    have nothing : between = [] := byteSize_eq_zero (by omega)
    simp [nothing]

/-! ### Whole tokens -/

/-- The bytes that a token covers are those of the lexeme at its place. -/
theorem ScanStep.ofLexeme_bytes (before : List Char) (first : Char) (rest : List Char) :
    (ofLexeme (Position.start.after before) first rest).token.span.start = byteSize before ∧
      (ofLexeme (Position.start.after before) first rest).token.span.stop =
        byteSize before + byteSize (Lexeme.scan first rest).text := by
  have place : (Position.start.after before).offset = byteSize before :=
    (Position.start.offset_after before).trans (Nat.zero_add _)
  rw [(ofLexeme_token _ first rest).2]
  exact ⟨place, ((Position.start.after before).offset_after _).trans (congrArg (· + _) place)⟩

theorem ScanStep.ofLexeme_isUnknown {place : Position} {first : Char} {rest : List Char} :
    (ofLexeme place first rest).token.isUnknown = false ↔
      ∃ kind, (Lexeme.scan first rest).sort = .ok kind := by
  cases found : (Lexeme.scan first rest).sort with
  | ok kind => simp [ofLexeme, found, Token.isUnknown, (Lexeme.scan_isProper found).1]
  | error flaw => simp [ofLexeme, found, Token.isUnknown]

/-- The lexeme at the head of a token of the language is all of it. -/
theorem IsToken.scan {first : Char} {rest : List Char}
    (isToken : IsToken (String.ofList (first :: rest))) :
    (Lexeme.scan first rest).rest = [] ∧ ∃ kind, (Lexeme.scan first rest).sort = .ok kind := by
  obtain ⟨token, ending, tokens, _, _, known, start, stop⟩ := isToken
  obtain ⟨lexemes, last, same, cuts, _⟩ :=
    (Cursor.ofSource (String.ofList (first :: rest))).steps_shape
  rw [tokenize_eq, same, List.map_append] at tokens
  have tokens : lexemes.map (·.token) ++ [last.token] = [token] ++ [ending] := tokens
  obtain ⟨among, _⟩ := List.append_inj' tokens rfl
  obtain ⟨step, rfl, rfl⟩ := List.map_eq_singleton_iff.mp among
  obtain ⟨before, first', rest', whole, _, rfl⟩ := cuts step (List.mem_singleton_self step)
  have whole : before ++ first' :: rest' = first :: rest := whole.trans String.toList_ofList
  obtain ⟨starts, stops⟩ := ScanStep.ofLexeme_bytes before first' rest'
  obtain rfl : before = [] := byteSize_eq_zero (starts.symm.trans start)
  obtain ⟨rfl, rfl⟩ := List.cons.inj whole
  refine ⟨byteSize_eq_zero ?_, ScanStep.ofLexeme_isUnknown.mp known⟩
  -- the lexeme has as many bytes as the text, so nothing is behind it
  have size : byteSize (Lexeme.scan first' rest').text +
      byteSize (Lexeme.scan first' rest').rest = byteSize (first' :: rest') := by
    rw [← byteSize_append, Lexeme.scan_append]
  have all : byteSize [] + byteSize (Lexeme.scan first' rest').text = byteSize (first' :: rest') :=
    stops.symm.trans stop
  have empty : byteSize [] = 0 := rfl
  omega

/-- Where no gap goes on, a text that is one lexeme of the language is a token as a whole. -/
theorem IsToken.of_scan {first : Char} {rest : List Char} {kind : Token.Kind}
    (stops : Gap.Stops (first :: rest)) (whole : (Lexeme.scan first rest).rest = [])
    (known : (Lexeme.scan first rest).sort = .ok kind) :
    IsToken (String.ofList (first :: rest)) := by
  have text := Lexeme.scan_append first rest
  rw [whole, List.append_nil] at text
  obtain ⟨starts, ends⟩ := ScanStep.ofLexeme_bytes [] first rest
  have tokens : tokenize (String.ofList (first :: rest)) =
      [(ScanStep.ofLexeme .start first rest).token,
        (ScanStep.ofEnd ⟨⟨Position.start.after (first :: rest), []⟩, none⟩).token] := by
    rw [tokenize_eq, Cursor.ofSource, String.toList_ofList, Cursor.steps_of_stops stops,
      ScanStep.ofLexeme_next, whole, text, Cursor.steps_nil]
    rfl
  refine ⟨_, _, tokens, rfl, ?_, ScanStep.ofLexeme_isUnknown.mpr ⟨kind, known⟩, starts, ?_⟩
  · simpa [Token.isEnd] using ScanStep.ofLexeme_goesOn .start first rest
  · rw [text] at ends
    exact ends.trans (Nat.zero_add _)

/-! ### Tokens of a source text -/

section Cut

variable {source : String} {step : ScanStep} (cuts : step.CutsFrom (.ofSource source))

include cuts

theorem ScanStep.CutsFrom.isToken (known : step.token.isUnknown = false) :
    IsToken step.token.lexeme := by
  obtain ⟨before, first, rest, _, stops, rfl⟩ := cuts
  obtain ⟨lexeme, _⟩ := ofLexeme_token (Position.start.after before) first rest
  obtain ⟨kind, sort⟩ := ofLexeme_isUnknown.mp known
  obtain ⟨body, shape⟩ := Lexeme.scan_text_head first rest
  have noMore : ∀ next ∈ ([] : List Char).head?, next = '\n' := by simp
  have alone := Lexeme.scan_of_cut noMore shape
  have stops := stops.of_cut shape noMore
  rw [List.append_nil] at alone stops
  rw [Cursor.ofSource, lexeme, shape]
  exact .of_scan stops (by rw [alone]) (by rw [alone, sort])

theorem ScanStep.CutsFrom.stands :
    StandsAt source step.token.span.start step.token.lexeme ∧
      step.token.span.stop = step.token.span.start + step.token.lexeme.utf8ByteSize := by
  obtain ⟨before, first, rest, whole, _, rfl⟩ := cuts
  obtain ⟨starts, stops⟩ := ofLexeme_bytes before first rest
  obtain ⟨lexeme, _⟩ := ofLexeme_token (Position.start.after before) first rest
  rw [Cursor.ofSource, starts, stops, lexeme]
  refine ⟨⟨before, (Lexeme.scan first rest).rest, ?_, rfl⟩, rfl⟩
  rw [String.toList_ofList, Lexeme.scan_append]
  exact whole

/-- A token of the language that stands in the place of a lexeme is not longer. -/
theorem ScanStep.CutsFrom.longest {other : String}
    (stands : StandsAt source step.token.span.start other) (isToken : IsToken other) :
    step.token.span.start + other.utf8ByteSize ≤ step.token.span.stop := by
  obtain ⟨before, first, rest, whole, _, rfl⟩ := cuts
  obtain ⟨before', behind, whole', place⟩ := stands
  obtain ⟨starts, stops⟩ := ofLexeme_bytes before first rest
  rw [Cursor.ofSource] at place ⊢
  rw [starts, stops, Nat.add_le_add_iff_left, ← byteSize_toList]
  obtain ⟨_, text⟩ :=
    append_inj_of_byteSize (whole.trans whole'.symm) (place.trans starts).symm
  cases shape : other.toList with
  | nil => exact Nat.zero_le _
  | cons first' rest' =>
      rw [shape, List.cons_append] at text
      rw [← String.ofList_toList (s := other), shape] at isToken
      obtain ⟨rfl, rfl⟩ := List.cons.inj text
      obtain ⟨all, kind, known⟩ := isToken.scan
      obtain ⟨more, reaches⟩ := Lexeme.scan_longest all known behind
      rw [← reaches, byteSize_append]
      exact Nat.le_add_right _ _

end Cut

/-- A token of the language stays one on its own. Whatever a lexeme is, a longer text in its place is no
token of the language. -/
theorem tokenize_maximal_munch (source : String) :
    ∀ token ∈ tokenize source, token.isEnd = false →
      StandsAt source token.span.start token.lexeme ∧
      token.span.stop = token.span.start + token.lexeme.utf8ByteSize ∧
      (token.isUnknown = false → IsToken token.lexeme) ∧
      ∀ longer, StandsAt source token.span.start longer →
        token.span.stop < token.span.start + longer.utf8ByteSize → ¬IsToken longer := by
  obtain ⟨lexemes, ending, same, cuts, ends⟩ := (Cursor.ofSource source).steps_shape
  intro token member goesOn
  rw [tokenize_eq, same, List.map_append, List.map_singleton] at member
  rcases List.mem_append.mp member with among | last
  · obtain ⟨step, isLexeme, rfl⟩ := List.mem_map.mp among
    have cuts := cuts step isLexeme
    refine ⟨cuts.stands.1, cuts.stands.2, cuts.isToken, fun longer stands exceeds isToken => ?_⟩
    exact Nat.not_le.mpr exceeds (cuts.longest stands isToken)
  · obtain ⟨before, rest, whole, done, isEnd⟩ := ends
    rw [List.mem_singleton.mp last, isEnd] at goesOn
    cases goesOn

/-- An exponent that lacks its digits leaves its sign behind, and the slice with the sign is no token. Nor
is an order sign with another `=` behind it. -/
theorem tokenize_maximal_munch_exponent :
    let source := "1e+ <==2.5"
    let number : Token := ⟨.unknown, "1e", ⟨0, 2, 1, 1⟩⟩
    let order : Token := ⟨.symbol .lessEqual, "<=", ⟨4, 6, 1, 5⟩⟩
    number ∈ tokenize source ∧ order ∈ tokenize source ∧ number.isEnd = false ∧
      order.isUnknown = false ∧ IsToken "<=" ∧
      StandsAt source 0 "1e+" ∧ ¬IsToken "1e+" ∧ StandsAt source 4 "<==" ∧ ¬IsToken "<==" := by
  intro source number order
  have tokens : number ∈ tokenize source ∧ order ∈ tokenize source := by decide +kernel
  have afterNumber : StandsAt source 0 "1e+" := ⟨[], " <==2.5".toList, by decide, by decide⟩
  have afterOrder : StandsAt source 4 "<==" := ⟨"1e+ ".toList, "2.5".toList, by decide, by decide⟩
  obtain ⟨_, _, _, longestNumber⟩ := tokenize_maximal_munch source number tokens.1 rfl
  obtain ⟨_, _, whole, longestOrder⟩ := tokenize_maximal_munch source order tokens.2 rfl
  exact ⟨tokens.1, tokens.2, rfl, rfl, whole rfl, afterNumber,
    longestNumber _ afterNumber (by decide), afterOrder, longestOrder _ afterOrder (by decide)⟩

end StagedAnalysis
