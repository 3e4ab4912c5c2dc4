import StagedAnalysis.Proofs.Lexing
import StagedAnalysis.Proofs.Lexing.Scans
/-!
Tokens tile their source text.

`Tiles` says that a text is a row of gaps and lexemes that begins with a gap and ends with one, that
each token has the bytes of its lexeme as its range, and that the end of the input stands behind
the last byte. The tokens of every source text tile it, so nothing is lost and nothing is read
twice.
-/
namespace StagedAnalysis

/-! ### Bytes -/

def byteSize (text : List Char) : Nat :=
  (String.ofList text).utf8ByteSize

theorem byteSize_toList (text : String) : byteSize text.toList = text.utf8ByteSize := by
  rw [byteSize, String.ofList_toList]

theorem byteSize_append (first second : List Char) :
    byteSize (first ++ second) = byteSize first + byteSize second := by
  rw [byteSize, String.ofList_append, String.utf8ByteSize_append, byteSize, byteSize]

theorem byteSize_cons (character : Char) (text : List Char) :
    byteSize (character :: text) = character.utf8Size + byteSize text := by
  rw [byteSize, String.ofList_cons, String.utf8ByteSize_append, String.utf8ByteSize_singleton,
    byteSize]

theorem Position.offset_after (place : Position) (text : List Char) :
    (place.after text).offset = place.offset + byteSize text := by
  induction text generalizing place with
  | nil => rfl
  | cons character text inductionHypothesis =>
      have step : (place.next character).offset = place.offset + character.utf8Size := by
        unfold next
        split <;> rfl
      rw [after_cons, inductionHypothesis, step, byteSize_cons, Nat.add_assoc]

/-- The bytes between two places of a text are those of the text between them. -/
theorem extract_bytes (before text behind : List Char) :
    (String.ofList (before ++ text ++ behind)).toUTF8.extract (byteSize before)
      (byteSize before + byteSize text) = (String.ofList text).toUTF8 := by
  simp only [String.ofList_append, String.toUTF8_eq_toByteArray, String.toByteArray_append]
  have shifted := @ByteArray.extract_append_size_add (String.ofList before).toByteArray
    ((String.ofList text).toByteArray ++ (String.ofList behind).toByteArray) 0 (byteSize text)
  rw [ByteArray.append_assoc]
  exact shifted.trans (ByteArray.extract_append_eq_left rfl)

/-! ### Tilings -/

inductive Leftover (offset : Nat) : List Char → Option Span → Prop
  | nothing : Leftover offset [] none
  | comment {body : List Char} {span : Span} (within : Gap.StaysOpen body)
      (starts : span.start = offset) (stops : span.stop = offset + byteSize ('/' :: '*' :: body)) :
      Leftover offset ('/' :: '*' :: body) (some span)

inductive Tiles : Nat → List Char → List Token → Option Span → Prop
  | ending {offset : Nat} {gap tail : List Char} {span : Span} {comment? : Option Span}
      (fills : Gap.Fills gap tail) (left : Leftover (offset + byteSize gap) tail comment?)
      (starts : span.start = offset + byteSize (gap ++ tail)) (stops : span.stop = span.start) :
      Tiles offset (gap ++ tail) [.closing span] comment?
  | token {offset : Nat} {gap behind : List Char} {token : Token} {tokens : List Token}
      {comment? : Option Span} (fills : Gap.Fills gap (token.lexeme.toList ++ behind))
      (goesOn : token.kind ≠ .endOfInput) (written : token.lexeme ≠ "")
      (starts : token.span.start = offset + byteSize gap)
      (stops : token.span.stop = token.span.start + token.lexeme.utf8ByteSize)
      (others : Tiles token.span.stop behind tokens comment?) :
      Tiles offset (gap ++ token.lexeme.toList ++ behind) (token :: tokens) comment?

namespace Tiles

variable {offset : Nat} {text : List Char} {tokens : List Token} {comment? : Option Span}

/-- A token begins where the text does or behind it. -/
theorem bounds (tiles : Tiles offset text tokens comment?) :
    ∀ token ∈ tokens, offset ≤ token.span.start ∧ token.span.start ≤ token.span.stop := by
  induction tiles with
  | ending fills left starts stops =>
      refine List.forall_mem_singleton.mpr ?_
      rw [Token.closing]
      dsimp only
      omega
  | token fills goesOn written starts stops others inductionHypothesis =>
      refine List.forall_mem_cons.mpr ⟨by omega, ?_⟩
      intro later member
      have behind := inductionHypothesis later member
      omega

theorem ordered (tiles : Tiles offset text tokens comment?) :
    tokens.Pairwise fun first second => first.span.stop ≤ second.span.start := by
  induction tiles with
  | ending fills left starts stops => exact List.pairwise_singleton _ _
  | token fills goesOn written starts stops others inductionHypothesis =>
      refine List.pairwise_cons.mpr ⟨?_, inductionHypothesis⟩
      intro later member
      exact (others.bounds later member).1

/-- Every token has the bytes of its lexeme as its range. -/
theorem extract_span (tiles : Tiles offset text tokens comment?) {before : List Char}
    (place : byteSize before = offset) :
    ∀ token ∈ tokens, (String.ofList (before ++ text)).toUTF8.extract token.span.start
      token.span.stop = token.lexeme.toUTF8 := by
  induction tiles generalizing before with
  | ending fills left starts stops =>
      refine List.forall_mem_singleton.mpr ?_
      rw [Token.closing]
      dsimp only
      rw [stops, ByteArray.extract_same]
      rfl
  | @token offset gap behind token tokens comment? fills goesOn written starts stops others
      inductionHypothesis =>
      have reached : byteSize (before ++ gap) = token.span.start := by
        rw [byteSize_append, place, starts]
      have passed : byteSize (before ++ gap ++ token.lexeme.toList) = token.span.stop := by
        rw [byteSize_append, reached, byteSize_toList, stops]
      have here := extract_bytes (before ++ gap) token.lexeme.toList behind
      have later := inductionHypothesis passed
      rw [reached, byteSize_toList, ← stops, String.ofList_toList] at here
      simp only [List.append_assoc] at here later ⊢
      exact List.forall_mem_cons.mpr ⟨here, later⟩

/-- The end of the input stands behind the last byte, and all other tokens have some text. -/
theorem ends (tiles : Tiles offset text tokens comment?) :
    ∃ lexemes span, tokens = lexemes ++ [.closing span] ∧ span.start = offset + byteSize text ∧
      span.stop = offset + byteSize text ∧
      ∀ token ∈ lexemes, token.kind ≠ .endOfInput ∧ token.span.start < token.span.stop := by
  induction tiles with
  | @ending offset gap tail span comment? fills left starts stops =>
      exact ⟨[], span, rfl, starts, stops.trans starts, List.forall_mem_nil _⟩
  | @token offset gap behind token tokens comment? fills goesOn written starts stops others
      inductionHypothesis =>
      obtain ⟨lexemes, span, rfl, first, last, all⟩ := inductionHypothesis
      have size : byteSize (gap ++ token.lexeme.toList ++ behind) =
          byteSize gap + token.lexeme.utf8ByteSize + byteSize behind := by
        rw [byteSize_append, byteSize_append, byteSize_toList]
      have positive : 0 < token.lexeme.utf8ByteSize :=
        Nat.pos_of_ne_zero fun none => written (String.utf8ByteSize_eq_zero_iff.mp none)
      refine ⟨token :: lexemes, span, rfl, by omega, by omega, ?_⟩
      exact List.forall_mem_cons.mpr ⟨⟨goesOn, by omega⟩, all⟩

end Tiles

/-! ### The tokens of a source text -/

theorem ScanStep.ofLexeme_token (place : Position) (first : Char) (rest : List Char) :
    (ofLexeme place first rest).token.lexeme = String.ofList (Lexeme.scan first rest).text ∧
      (ofLexeme place first rest).token.span =
        .between place (place.after (Lexeme.scan first rest).text) := by
  unfold ofLexeme
  dsimp only
  split <;> exact ⟨rfl, rfl⟩

theorem ScanStep.ofLexeme_goesOn (place : Position) (first : Char) (rest : List Char) :
    (ofLexeme place first rest).token.kind ≠ .endOfInput := by
  have cuts := ofLexeme_cuts place first rest
  generalize ofLexeme place first rest = step at cuts ⊢
  cases cuts with
  | token proper => exact proper.2
  | flawed => simp

theorem Scans.tiles {place : Position} {text : List Char} {steps : List ScanStep}
    {comment? : Option Span} (scans : Scans place text steps comment?) :
    Tiles place.offset text (steps.map (·.token)) comment? := by
  induction scans with
  | @ending place text fills =>
      have tiles := @Tiles.ending place.offset text []
        (.between (place.after text) (place.after text)) none fills .nothing
        (by rw [List.append_nil]; exact place.offset_after text) rfl
      rwa [List.append_nil] at tiles
  | @unclosed place text body comment fills within range =>
      refine .ending fills (.comment within ?_ ?_) (place.offset_after _) rfl
      · rw [range]
        exact place.offset_after text
      · rw [range, Nat.add_assoc, ← byteSize_append]
        exact place.offset_after _
  | @lexeme place text rest first steps comment? fills others inductionHypothesis =>
      obtain ⟨lexeme, span⟩ := ScanStep.ofLexeme_token (place.after text) first rest
      have goesOn := ScanStep.ofLexeme_goesOn (place.after text) first rest
      rw [List.map_cons]
      generalize (ScanStep.ofLexeme (place.after text) first rest).token = token at *
      have parts : token.lexeme.toList ++ (Lexeme.scan first rest).rest = first :: rest := by
        rw [lexeme, String.toList_ofList, Lexeme.scan_append]
      have start : token.span.start = (place.after text).offset := by
        rw [span, Span.between]
      have stop : token.span.stop =
          ((place.after text).after (Lexeme.scan first rest).text).offset := by
        rw [span, Span.between]
      rw [← parts, ← List.append_assoc]
      rw [← parts] at fills
      refine .token fills goesOn ?_ (start.trans (place.offset_after text)) ?_
        (stop ▸ inductionHypothesis)
      · intro empty
        rw [lexeme, ← String.toList_inj, String.toList_ofList] at empty
        exact Lexeme.scan_text_ne_nil first rest empty
      · rw [stop, Position.offset_after, start, byteSize, ← lexeme]

/-- The tokens of a source text tile it. The end of the input is the last of them and the only one
of its kind, and has the place behind the last byte; all others have the bytes of their lexemes as
their ranges, in the order of the source. -/
theorem tokenize_tiles (source : String) :
    (∃ comment?, Tiles 0 source.toList (tokenize source) comment?) ∧
      (∃ lexemes span, tokenize source = lexemes ++ [.closing span] ∧
        span.start = source.utf8ByteSize ∧ span.stop = source.utf8ByteSize ∧
        ∀ token ∈ lexemes, token.kind ≠ .endOfInput ∧ token.span.start < token.span.stop) ∧
      (∀ token ∈ tokenize source,
        source.toUTF8.extract token.span.start token.span.stop = token.lexeme.toUTF8) ∧
      (tokenize source).Pairwise fun first second => first.span.stop ≤ second.span.start := by
  obtain ⟨comment?, scans⟩ := (Cursor.ofSource source).steps_scans
  have tiles : Tiles 0 source.toList (tokenize source) comment? := scans.tiles
  refine ⟨⟨comment?, tiles⟩, ?_, ?_, tiles.ordered⟩
  · have ends := tiles.ends
    rwa [Nat.zero_add, byteSize_toList] at ends
  · have slices := @Tiles.extract_span 0 source.toList (tokenize source) comment? tiles [] rfl
    rwa [List.nil_append, String.ofList_toList] at slices

end StagedAnalysis
