import Mathlib.Data.List.TakeWhile
import StagedAnalysis.Number.Numeral
/-!
The longest numeral at the head of a text.

A numeral is well formed if its parts are what the form `D+ (. D+)? ([eE] [+-]? D+)?` allows. Behind a
digit, `split` finds a well-formed numeral, and no longer one begins the text. Two well-formed numerals
with the same text have the same parts, so the text that is split off says all about the numeral.
-/
namespace StagedAnalysis

namespace Numeral

def IsDigits (text : List Char) : Prop :=
  text ≠ [] ∧ ∀ character ∈ text, character.isDigit = true

structure WellFormed (numeral : Numeral) : Prop where
  whole : IsDigits numeral.whole
  fraction : numeral.fraction = [] ∨ ∃ digits, IsDigits digits ∧ numeral.fraction = '.' :: digits
  exponent : numeral.exponent = [] ∨ ∃ mark sign digits, mark ∈ ['e', 'E'] ∧
    sign ∈ [[], ['+'], ['-']] ∧ IsDigits digits ∧ numeral.exponent = mark :: (sign ++ digits)

/-! ### Digits -/

section Digits

variable {digits : List Char} (isDigits : IsDigits digits) (behind : List Char)

include isDigits

theorem IsDigits.takeWhile_append :
    (digits ++ behind).takeWhile Char.isDigit = digits ++ behind.takeWhile Char.isDigit :=
  List.takeWhile_append_of_pos isDigits.2

theorem IsDigits.dropWhile_append :
    (digits ++ behind).dropWhile Char.isDigit = behind.dropWhile Char.isDigit :=
  List.dropWhile_append_of_pos isDigits.2

theorem IsDigits.exists_cons : ∃ first rest, digits = first :: rest ∧ first.isDigit = true := by
  obtain ⟨first, rest, rfl⟩ := List.exists_cons_of_ne_nil isDigits.1
  exact ⟨first, rest, rfl, isDigits.2 first List.mem_cons_self⟩

end Digits

theorem isDigits_takeWhile {first : Char} (isDigit : first.isDigit = true) (rest : List Char) :
    IsDigits ((first :: rest).takeWhile Char.isDigit) := by
  refine ⟨?_, fun character => List.mem_takeWhile_imp⟩
  rw [List.takeWhile_cons_of_pos isDigit]
  exact List.cons_ne_nil _ _

/-! ### What is split off is well formed -/

theorem splitFraction_form (text : List Char) : (splitFraction text).1 = [] ∨
    ∃ digits, IsDigits digits ∧ (splitFraction text).1 = '.' :: digits := by
  fun_cases splitFraction text with
  | case1 digit rest isDigit =>
      refine .inr ⟨digit :: rest.takeWhile Char.isDigit, ?_, rfl⟩
      rw [← List.takeWhile_cons_of_pos isDigit]
      exact isDigits_takeWhile isDigit rest
  | case2 => exact .inl rfl
  | case3 => exact .inl rfl

theorem splitSign_form (text : List Char) : (splitSign text).1 ∈ [[], ['+'], ['-']] := by
  fun_cases splitSign text <;> simp

theorem splitExponent_form (text : List Char) : (splitExponent text).1 = [] ∨
    ∃ mark sign digits, mark ∈ ['e', 'E'] ∧ sign ∈ [[], ['+'], ['-']] ∧ IsDigits digits ∧
      (splitExponent text).1 = mark :: (sign ++ digits) := by
  cases text with
  | nil => exact .inl rfl
  | cons mark rest =>
      rw [splitExponent]
      dsimp only
      split
      · rename_i found
        rw [Bool.and_eq_true, Bool.not_eq_true', List.isEmpty_eq_false_iff] at found
        refine .inr ⟨mark, (splitSign rest).1, _, ?_, splitSign_form rest, ⟨found.2, ?_⟩, rfl⟩
        · simpa using found.1
        · exact fun character => List.mem_takeWhile_imp
      · exact .inl rfl

theorem split_wellFormed {first : Char} (isDigit : first.isDigit = true) (rest : List Char) :
    (split (first :: rest)).1.WellFormed where
  whole := isDigits_takeWhile isDigit rest
  fraction := splitFraction_form _
  exponent := splitExponent_form _

/-! ### No longer numeral begins the text -/

theorem splitFraction_digits {digits : List Char} (isDigits : IsDigits digits) (behind : List Char) :
    splitFraction ('.' :: (digits ++ behind)) =
      ('.' :: (digits ++ behind.takeWhile Char.isDigit), behind.dropWhile Char.isDigit) := by
  obtain ⟨first, rest, rfl, isDigit⟩ := isDigits.exists_cons
  have taken := isDigits.takeWhile_append behind
  have left := isDigits.dropWhile_append behind
  rw [List.cons_append, List.takeWhile_cons_of_pos isDigit] at taken
  rw [List.cons_append, List.dropWhile_cons_of_pos isDigit] at left
  rw [List.cons_append, splitFraction, if_pos isDigit, taken, left]

theorem splitSign_digits {sign digits : List Char} (isSign : sign ∈ [[], ['+'], ['-']])
    (isDigits : IsDigits digits) (behind : List Char) :
    splitSign (sign ++ (digits ++ behind)) = (sign, digits ++ behind) := by
  obtain ⟨first, rest, rfl, isDigit⟩ := isDigits.exists_cons
  simp only [List.mem_cons, List.not_mem_nil, or_false] at isSign
  rcases isSign with rfl | rfl | rfl
  · rw [List.nil_append, List.cons_append, splitSign]
    · rintro _ same
      cases same
      cases isDigit
    · rintro _ same
      cases same
      cases isDigit
  · rfl
  · rfl

theorem splitExponent_digits {mark : Char} {sign digits : List Char} (isMark : mark ∈ ['e', 'E'])
    (isSign : sign ∈ [[], ['+'], ['-']]) (isDigits : IsDigits digits) (behind : List Char) :
    splitExponent (mark :: (sign ++ (digits ++ behind))) =
      (mark :: (sign ++ (digits ++ behind.takeWhile Char.isDigit)),
        behind.dropWhile Char.isDigit) := by
  have found : ((mark == 'e' || mark == 'E') &&
      !(digits ++ behind.takeWhile Char.isDigit).isEmpty) = true := by
    simpa [isDigits.1] using isMark
  rw [splitExponent]
  simp only [splitSign_digits isSign isDigits, isDigits.takeWhile_append, isDigits.dropWhile_append]
  rw [if_pos found, List.cons_append]

theorem split_digits {digits : List Char} (isDigits : IsDigits digits) (behind : List Char) :
    split (digits ++ behind) =
      let (fraction, behindFraction) := splitFraction (behind.dropWhile Char.isDigit)
      let (exponent, rest) := splitExponent behindFraction
      (⟨digits ++ behind.takeWhile Char.isDigit, fraction, exponent⟩, rest) := by
  rw [split, isDigits.takeWhile_append, isDigits.dropWhile_append]

/-- What stands behind a numeral without fraction and exponent may go on in every way. -/
theorem split_of_whole {whole : List Char} (isDigits : IsDigits whole) (behind : List Char) :
    whole <+: (split (whole ++ behind)).1.text := by
  rw [split_digits isDigits]
  simp only [text, List.append_assoc]
  exact List.prefix_append _ _

/-- What stands behind a fraction may go on with digits and an exponent. -/
theorem split_of_fraction {whole digits : List Char} (isDigits : IsDigits whole)
    (areDigits : IsDigits digits) (behind : List Char) :
    split (whole ++ '.' :: (digits ++ behind)) =
      let (exponent, rest) := splitExponent (behind.dropWhile Char.isDigit)
      (⟨whole, '.' :: (digits ++ behind.takeWhile Char.isDigit), exponent⟩, rest) := by
  have noDigit : ¬Char.isDigit '.' = true := by decide
  rw [split_digits isDigits, List.takeWhile_cons_of_neg noDigit, List.dropWhile_cons_of_neg noDigit,
    splitFraction_digits areDigits, List.append_nil]

/-- What stands behind an exponent may go on with digits alone. -/
theorem split_of_exponent {whole fraction sign digits : List Char} {mark : Char}
    (isDigits : IsDigits whole)
    (form : fraction = [] ∨ ∃ digits, IsDigits digits ∧ fraction = '.' :: digits)
    (isMark : mark ∈ ['e', 'E']) (isSign : sign ∈ [[], ['+'], ['-']]) (areDigits : IsDigits digits)
    (behind : List Char) :
    split (whole ++ (fraction ++ mark :: (sign ++ (digits ++ behind)))) =
      (⟨whole, fraction, mark :: (sign ++ (digits ++ behind.takeWhile Char.isDigit))⟩,
        behind.dropWhile Char.isDigit) := by
  have noDigit : ¬mark.isDigit = true ∧ mark ≠ '.' := by
    simp only [List.mem_cons, List.not_mem_nil, or_false] at isMark
    rcases isMark with rfl | rfl <;> decide
  rcases form with rfl | ⟨others, alsoDigits, rfl⟩
  · rw [split_digits isDigits, List.nil_append, List.takeWhile_cons_of_neg noDigit.1,
      List.dropWhile_cons_of_neg noDigit.1, splitFraction]
    · simp only [splitExponent_digits isMark isSign areDigits, List.append_nil]
    · exact fun digit rest same => noDigit.2 (List.cons.inj same).1
  · rw [List.cons_append, split_of_fraction isDigits alsoDigits, List.takeWhile_cons_of_neg noDigit.1,
      List.dropWhile_cons_of_neg noDigit.1]
    simp only [splitExponent_digits isMark isSign areDigits, List.append_nil]

/-- No longer numeral begins a text than the one that is split off. -/
theorem WellFormed.prefix_split {numeral : Numeral} (wellFormed : numeral.WellFormed)
    {whole : List Char} (begins : numeral.text <+: whole) : numeral.text <+: (split whole).1.text := by
  obtain ⟨behind, rfl⟩ := begins
  obtain ⟨whole, fraction, exponent⟩ := numeral
  obtain ⟨isDigits, form, mark?⟩ := wellFormed
  rcases mark? with rfl | ⟨mark, sign, digits, isMark, isSign, areDigits, rfl⟩
  · rcases form with rfl | ⟨digits, areDigits, rfl⟩
    · simpa [text] using split_of_whole isDigits behind
    · have found := split_of_fraction isDigits areDigits behind
      simp only [text, List.append_nil, List.append_assoc, List.cons_append] at found ⊢
      rw [found]
      simp [List.append_assoc]
  · have found := split_of_exponent isDigits form isMark isSign areDigits behind
    simp only [text, List.append_assoc, List.cons_append] at found ⊢
    rw [found]
    simp

/-- The text of a numeral has its parts and no others. -/
theorem WellFormed.split_text {numeral : Numeral} (wellFormed : numeral.WellFormed) :
    split numeral.text = (numeral, []) := by
  obtain ⟨whole, fraction, exponent⟩ := numeral
  obtain ⟨isDigits, form, mark?⟩ := wellFormed
  rcases mark? with rfl | ⟨mark, sign, digits, isMark, isSign, areDigits, rfl⟩
  · rcases form with rfl | ⟨digits, areDigits, rfl⟩
    · simpa [text, splitFraction, splitExponent] using split_digits isDigits []
    · simpa [text, splitExponent] using split_of_fraction isDigits areDigits []
  · simpa [text] using split_of_exponent isDigits form isMark isSign areDigits []

theorem WellFormed.eq_of_text_eq {numeral other : Numeral} (wellFormed : numeral.WellFormed)
    (otherWellFormed : other.WellFormed) (same : numeral.text = other.text) : numeral = other := by
  have parts := wellFormed.split_text
  rw [same, otherWellFormed.split_text] at parts
  exact (congrArg Prod.fst parts).symm

theorem WellFormed.split_wellFormed {numeral : Numeral} (wellFormed : numeral.WellFormed)
    (behind : List Char) : (split (numeral.text ++ behind)).1.WellFormed := by
  obtain ⟨digit, digits, begins, isDigit⟩ := wellFormed.whole.exists_cons
  rw [text, begins]
  exact Numeral.split_wellFormed isDigit _

/-- The numeral that no longer one begins the text than is split off. -/
theorem WellFormed.split_eq {numeral : Numeral} (wellFormed : numeral.WellFormed) {behind : List Char}
    (longest : ∀ other : Numeral, other.WellFormed → other.text <+: numeral.text ++ behind →
      other.text <+: numeral.text) :
    split (numeral.text ++ behind) = (numeral, behind) := by
  have foundWellFormed := wellFormed.split_wellFormed behind
  have parts := split_append (numeral.text ++ behind)
  have longer := wellFormed.prefix_split (List.prefix_append numeral.text behind)
  generalize split (numeral.text ++ behind) = result at *
  obtain ⟨found, rest⟩ := result
  have shorter := longest found foundWellFormed ⟨rest, parts⟩
  have same : found.text = numeral.text := shorter.eq_of_length_le longer.length_le
  rw [same, List.append_cancel_left_eq] at parts
  exact Prod.ext (foundWellFormed.eq_of_text_eq wellFormed same) parts

/-! ### What stands behind a numeral -/

/-- A numeral stays within its line. -/
theorem WellFormed.newline_notMem {numeral : Numeral} (wellFormed : numeral.WellFormed) :
    '\n' ∉ numeral.text := by
  have noDigit {digits : List Char} (isDigits : IsDigits digits) : '\n' ∉ digits := fun member =>
    Bool.false_ne_true (isDigits.2 '\n' member)
  obtain ⟨whole, fraction, exponent⟩ := numeral
  obtain ⟨isDigits, form, mark?⟩ := wellFormed
  have inFraction : '\n' ∉ fraction := by
    rcases form with rfl | ⟨digits, areDigits, rfl⟩
    · exact List.not_mem_nil
    · exact List.not_mem_cons_of_ne_of_not_mem (by decide) (noDigit areDigits)
  have inExponent : '\n' ∉ exponent := by
    rcases mark? with rfl | ⟨mark, sign, digits, isMark, isSign, areDigits, rfl⟩
    · exact List.not_mem_nil
    · simp only [List.mem_cons, List.not_mem_nil, or_false] at isMark isSign
      refine List.not_mem_cons_of_ne_of_not_mem ?_ ?_
      · rcases isMark with rfl | rfl <;> decide
      · rw [List.mem_append, not_or]
        exact ⟨by rcases isSign with rfl | rfl | rfl <;> decide, noDigit areDigits⟩
  simp only [text, List.mem_append, not_or]
  exact ⟨⟨noDigit isDigits, inFraction⟩, inExponent⟩

/-- What has no line end, and begins a text, begins what is in front of the line end. -/
theorem prefix_of_prefix_append {part front behind : List Char} (starts : part <+: front ++ behind)
    (inLine : '\n' ∉ part) (ends : ∀ next ∈ behind.head?, next = '\n') : part <+: front := by
  rcases List.prefix_or_prefix_of_prefix starts (List.prefix_append front behind) with short | long
  · exact short
  · obtain ⟨more, rfl⟩ := long
    cases more with
    | nil => exact (List.append_nil front).symm ▸ List.prefix_rfl
    | cons next more =>
        obtain ⟨rest, rfl⟩ := (List.prefix_append_right_inj front).mp starts
        have isEnd := ends next rfl
        exact absurd (List.mem_append_right front List.mem_cons_self) (isEnd ▸ inLine)

/-- The numeral at the head of a text is the same if some of what is behind it is cut off there, or is
moved to the next line. -/
theorem split_of_cut {first : Char} {rest kept left behind : List Char}
    (isDigit : first.isDigit = true) (shape : (split (first :: rest)).2 = kept ++ left)
    (ends : ∀ next ∈ behind.head?, next = '\n') :
    split ((split (first :: rest)).1.text ++ (kept ++ behind)) =
      ((split (first :: rest)).1, kept ++ behind) := by
  apply (Numeral.split_wellFormed isDigit rest).split_eq
  intro other wellFormed starts
  rw [← List.append_assoc] at starts
  have inFront := prefix_of_prefix_append starts wellFormed.newline_notMem ends
  have kept : (split (first :: rest)).1.text ++ kept <+: first :: rest := by
    refine ⟨left, ?_⟩
    rw [List.append_assoc, ← shape, split_append]
  exact wellFormed.prefix_split (inFront.trans kept)

end Numeral

end StagedAnalysis
