import Mathlib.Data.Nat.Digits.Defs
import StagedAnalysis.Proofs.Lexing.MaximalMunch
import StagedAnalysis.Proofs.Lexing.Numerals
/-!
Number literals and their values.

Where a lexeme begins with a digit, the longest numeral that stands there is cut off with all the letters,
digits and underscores behind it. If there are any, the lexeme is malformed, and so is a whole number that is
too great. Every other one is a number.
-/
namespace StagedAnalysis

/-- A row of digits stands for the number that has them as its digits to base ten, the last one first. -/
theorem Decimal.value_eq_ofDigits (digits : List Char) :
    value digits = Nat.ofDigits 10 (digits.reverse.map fun digit => digit.toNat - '0'.toNat) := by
  rw [Nat.ofDigits_eq_foldr, List.foldr_map, List.foldr_reverse, value]
  simp only [Nat.cast_id, Nat.add_comm]

namespace Numeral

def number (numeral : Numeral) : Nat :=
  Nat.ofDigits 10 (numeral.text.reverse.map fun digit => digit.toNat - '0'.toNat)

/-- The numeral is the longest one in front of the run and what is behind it, and the run goes on as far as
the letters, digits and underscores do. -/
structure Heads (numeral : Numeral) (run behind : List Char) : Prop where
  wellFormed : numeral.WellFormed
  longest : ∀ other : Numeral, other.WellFormed → other.text <+: numeral.text ++ (run ++ behind) →
    other.text <+: numeral.text
  within : ∀ character ∈ run, Lexeme.isWordPart character = true
  ends : ∀ next ∈ behind.head?, Lexeme.isWordPart next = false

theorem heads_split {first : Char} (isDigit : first.isDigit = true) (rest : List Char) :
    Heads (split (first :: rest)).1 ((split (first :: rest)).2.takeWhile Lexeme.isWordPart)
      ((split (first :: rest)).2.dropWhile Lexeme.isWordPart) where
  wellFormed := split_wellFormed isDigit rest
  longest other wellFormed begins := by
    rw [List.takeWhile_append_dropWhile, split_append] at begins
    exact wellFormed.prefix_split begins
  within _ := List.mem_takeWhile_imp
  ends next isNext := by
    have stops := List.head?_dropWhile_not Lexeme.isWordPart (split (first :: rest)).2
    rw [Option.mem_def.mp isNext] at stops
    exact stops

theorem Heads.parts {numeral : Numeral} {run behind : List Char} (heads : Heads numeral run behind) :
    split (numeral.text ++ (run ++ behind)) = (numeral, run ++ behind) ∧
      (run ++ behind).takeWhile Lexeme.isWordPart = run := by
  refine ⟨heads.wellFormed.split_eq heads.longest, ?_⟩
  rw [List.takeWhile_append_of_pos heads.within, (takeWhile_behind heads.ends).1,
    List.append_nil]

/-- A text has one numeral and one run at its head. -/
theorem Heads.unique {numeral other : Numeral} {run behind otherRun otherBehind : List Char}
    (heads : Heads numeral run behind) (others : Heads other otherRun otherBehind)
    (same : numeral.text ++ (run ++ behind) = other.text ++ (otherRun ++ otherBehind)) :
    numeral = other ∧ run = otherRun := by
  have parts := heads.parts.1
  rw [same, others.parts.1] at parts
  obtain ⟨isSame, left⟩ := Prod.mk.inj parts
  refine ⟨isSame.symm, ?_⟩
  rw [← heads.parts.2, ← left, others.parts.2]

theorem value_whole {numeral : Numeral} (isWhole : numeral.isWhole = true) :
    Decimal.value numeral.whole = numeral.number := by
  rw [Numeral.isWhole, Bool.and_eq_true, List.isEmpty_iff, List.isEmpty_iff] at isWhole
  rw [number, text, isWhole.1, isWhole.2, List.append_nil, List.append_nil, Decimal.value_eq_ofDigits]

end Numeral

/-! ### Lexemes -/

namespace Lexeme

theorem isWordStart_of_isDigit {first : Char} (isDigit : first.isDigit = true) :
    isWordStart first = false := by
  have digit : first.val ≤ '9'.val := of_decide_eq_true (Bool.and_eq_true_iff.mp isDigit).2
  -- the letters and the underscore come behind the digits
  have before {least : Char} (behind : '9'.val < least.val) : ¬least.val ≤ first.val := fun above =>
    UInt32.not_le.mpr behind (UInt32.le_trans above digit)
  rw [isWordStart, Bool.or_eq_false_iff, beq_eq_false_iff_ne]
  refine ⟨Bool.eq_false_iff.mpr fun isAlpha => ?_, ?_⟩
  · rcases Bool.or_eq_true_iff.mp isAlpha with upper | lower
    · exact @before 'A' (by decide) (of_decide_eq_true upper).1
    · exact @before 'a' (by decide) (of_decide_eq_true (Bool.and_eq_true_iff.mp lower).1)
  · rintro rfl
    exact @before '_' (by decide) UInt32.le_rfl

/-- What a digit begins is a numeral with a run behind it. -/
theorem scan_of_isDigit {first : Char} (isDigit : first.isDigit = true) (rest : List Char) :
    ∃ numeral run behind, numeral.text ++ (run ++ behind) = first :: rest ∧
      Numeral.Heads numeral run behind ∧
      scan first rest = ⟨numeral.text ++ run,
        if run.isEmpty then numeralSort numeral else .error .malformedNumber, behind⟩ := by
  refine ⟨_, _, _, ?_, Numeral.heads_split isDigit rest, ?_⟩
  · rw [List.takeWhile_append_dropWhile, Numeral.split_append]
  · rw [scan, isWordStart_of_isDigit isDigit, if_neg Bool.false_ne_true, if_pos isDigit, ofNumeral]

section Sorts

variable {numeral : Numeral}

theorem numeralSort_of_le (isWhole : numeral.isWhole = true) (fits : numeral.number ≤ 2 ^ 63 - 1) :
    numeralSort numeral = .ok (.int numeral.number) := by
  have fits : (numeral.number : Int) ≤ greatestInt := Int.ofNat_le.mpr fits
  rw [numeralSort, if_pos isWhole, Numeral.value_whole isWhole]
  exact if_pos fits

theorem numeralSort_of_lt (isWhole : numeral.isWhole = true) (large : 2 ^ 63 - 1 < numeral.number) :
    numeralSort numeral = .error .malformedNumber := by
  have large : greatestInt < (numeral.number : Int) := Int.ofNat_lt.mpr large
  rw [numeralSort, if_pos isWhole, Numeral.value_whole isWhole]
  exact if_neg (Int.not_le.mpr large)

theorem numeralSort_of_float (isFloat : numeral.isWhole = false) :
    numeralSort numeral = .ok (.float numeral.toBinary64) := by
  rw [numeralSort, isFloat, if_neg Bool.false_ne_true]

end Sorts

end Lexeme

/-! ### Tokens -/

def IsMalformed (source : String) (token : Token) : Prop :=
  token.kind = .unknown ∧ .malformedNumber token.lexeme token.span ∈ lexicalErrors source

theorem IsMalformed.of_step {source : String} {place : Position} {first : Char} {rest : List Char}
    (isStep : ScanStep.ofLexeme place first rest ∈ (Cursor.ofSource source).steps)
    (sort : (Lexeme.scan first rest).sort = .error .malformedNumber) :
    IsMalformed source (ScanStep.ofLexeme place first rest).token := by
  obtain ⟨unknown, faults⟩ := ScanStep.ofLexeme_of_error sort
  refine ⟨unknown, ?_⟩
  rw [lexicalErrors_eq, List.mem_flatMap]
  exact ⟨_, isStep, faults ▸ List.mem_singleton_self _⟩

/-- Only the end of the input has no lexeme. -/
theorem goesOn_of_head? {source : String} {token : Token} {first : Char}
    (member : token ∈ tokenize source) (begins : first ∈ token.lexeme.toList.head?) :
    token.isEnd = false := by
  obtain ⟨tokens, span, shape, goesOn⟩ := tokenize_shape source
  rw [shape] at member
  rcases List.mem_append.mp member with among | last
  · exact goesOn token among
  · rw [List.mem_singleton.mp last] at begins
    cases begins

/-- A lexeme that begins with a digit is the longest numeral that stands there, with the run of letters,
digits and underscores behind it. With a run it is malformed, and so is a whole number beyond the greatest
one. Every other whole number stands for itself, and a numeral with a fraction or an exponent for the nearest
binary number. -/
theorem tokenize_numbers (source : String) :
    ∀ token ∈ tokenize source, ∀ digit ∈ token.lexeme.toList.head?, digit.isDigit = true →
      ∃ before numeral run behind, before ++ (numeral.text ++ (run ++ behind)) = source.toList ∧
        byteSize before = token.span.start ∧ Numeral.Heads numeral run behind ∧
        token.lexeme.toList = numeral.text ++ run ∧
        (run ≠ [] → IsMalformed source token) ∧
        (run = [] → numeral.isWhole = true →
          (numeral.number ≤ 2 ^ 63 - 1 → token.kind = .int numeral.number) ∧
          (2 ^ 63 - 1 < numeral.number → IsMalformed source token)) ∧
        (run = [] → numeral.isWhole = false → token.kind = .float numeral.toBinary64) := by
  intro token member digit begins isDigit
  obtain ⟨step, isStep, rfl, before, first, rest, whole, _, rfl⟩ :=
    exists_step_of_mem member (goesOn_of_head? member begins)
  obtain ⟨lexeme, _⟩ := ScanStep.ofLexeme_token ((Cursor.ofSource source).place.after before) first rest
  obtain ⟨body, shape⟩ := Lexeme.scan_text_head first rest
  rw [lexeme, String.toList_ofList, shape] at begins
  obtain rfl : digit = first := (Option.some.inj begins).symm
  obtain ⟨numeral, run, behind, parts, heads, scanned⟩ := Lexeme.scan_of_isDigit isDigit rest
  have sort := congrArg Lexeme.sort scanned
  refine ⟨before, numeral, run, behind, parts ▸ whole, ?_, heads, ?_, fun runs => ?_, fun ends => ?_,
    fun ends isFloat => ?_⟩
  · exact (ScanStep.ofLexeme_bytes before digit rest).1.symm
  · rw [lexeme, String.toList_ofList, scanned]
  · exact .of_step isStep (sort.trans (if_neg (mt List.isEmpty_iff.mp runs)))
  · intro isWhole
    have sort := sort.trans (if_pos (List.isEmpty_iff.mpr ends))
    refine ⟨fun fits => ?_, fun large => ?_⟩
    · exact (ScanStep.ofLexeme_of_ok (sort.trans (Lexeme.numeralSort_of_le isWhole fits))).1
    · exact .of_step isStep (sort.trans (Lexeme.numeralSort_of_lt isWhole large))
  · have sort := sort.trans (if_pos (List.isEmpty_iff.mpr ends))
    exact (ScanStep.ofLexeme_of_ok (sort.trans (Lexeme.numeralSort_of_float isFloat))).1

/-- The least whole number that no literal may have is the longest numeral where it stands. -/
theorem tokenize_numbers_malformed :
    let source := "9223372036854775808+1"
    let token : Token := ⟨.unknown, "9223372036854775808", ⟨0, 19, 1, 1⟩⟩
    let numeral : Numeral := ⟨"9223372036854775808".toList, [], []⟩
    token ∈ tokenize source ∧ '9' ∈ token.lexeme.toList.head? ∧ Char.isDigit '9' = true ∧
      Numeral.Heads numeral [] ['+', '1'] ∧ numeral.isWhole = true ∧ 2 ^ 63 - 1 < numeral.number ∧
      IsMalformed source token := by
  intro source token numeral
  have member : token ∈ tokenize source := by decide +kernel
  have begins : '9' ∈ token.lexeme.toList.head? := by decide
  have large : 2 ^ 63 - 1 < numeral.number := by decide
  have heads : Numeral.Heads numeral [] ['+', '1'] := by
    have split : Numeral.split ('9' :: source.toList.drop 1) = (numeral, ['+', '1']) := by decide
    have found := @Numeral.heads_split '9' rfl (source.toList.drop 1)
    rw [split] at found
    exact found
  obtain ⟨before, found, run, behind, whole, start, foundHeads, _, _, alone, _⟩ :=
    tokenize_numbers source token member '9' begins rfl
  obtain rfl : before = [] := byteSize_eq_zero start
  obtain ⟨rfl, rfl⟩ := foundHeads.unique heads (whole.trans (by decide))
  exact ⟨member, begins, rfl, heads, rfl, large, (alone rfl rfl).2 large⟩

example : (tokenize "007 1.50 2.x 1e+ 3E-2_").map (·.lexeme) =
    ["007", "1.50", "2", ".", "x", "1e", "+", "3E-2_", ""] := by
  decide +kernel

end StagedAnalysis
