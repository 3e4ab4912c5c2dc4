import Mathlib.Data.List.DropRight
import Mathlib.Tactic.SplitIfs
import StagedAnalysis.Json.Reader
import StagedAnalysis.Proofs.Json.Spelling
/-!
Every spelled text is read as the value that it spells, with fuel for each of its characters.

A number ends where neither a digit, a point nor the mark of an exponent comes next; a comma, a
bracket, a brace and the end of the text all end it, with or without spacing in front.
-/
namespace StagedAnalysis.Json

/-! ### The tables of the reader -/

theorem isSpace_iff {character : Char} :
    isSpace character = true ↔ character ∈ [' ', '\t', '\n', '\r'] := by
  simp [isSpace, or_assoc]

theorem unescape?_eq_some_iff {mark character : Char} :
    unescape? mark = some character ↔ (mark, character) ∈ shortEscapes := by
  constructor
  · intro named
    rw [unescape?.eq_def] at named
    split at named
    case h_9 => cases named
    all_goals
      cases named
      decide
  · have table : ∀ escape ∈ shortEscapes, unescape? escape.1 = some escape.2 := by decide
    exact table (mark, character)

theorem toNat_le_of_hexValue? {digit : Char} {value : Nat} (named : hexValue? digit = some value) :
    digit.toNat ≤ 'f'.toNat := by
  rw [hexValue?] at named
  split_ifs at named with decimal small large
  · rw [Char.isDigit, Bool.and_eq_true] at decimal
    exact Nat.le_trans (of_decide_eq_true decimal.2) (by decide)
  · exact small.2
  · exact Nat.le_trans large.2 (by decide)

theorem hexValue?_eq_some_iff {digit : Char} {value : Nat} :
    hexValue? digit = some value ↔ SpellsDigit digit value := by
  constructor
  · intro named
    have table : ∀ number ≤ 'f'.toNat, ∀ value ∈ hexValue? (Char.ofNat number),
        smallHexDigits[value]? = some (Char.ofNat number) ∨
          largeHexDigits[value]? = some (Char.ofNat number) := by
      decide
    have place := table digit.toNat (toNat_le_of_hexValue? named) value
    rw [Char.ofNat_toNat] at place
    exact (place named).elim .small .large
  · have small : ∀ value < 16, smallHexDigits[value]?.bind hexValue? = some value := by decide
    have large : ∀ value < 16, largeHexDigits[value]?.bind hexValue? = some value := by decide
    intro spelled
    cases spelled with
    | small place =>
        have named := small value (List.getElem?_eq_some_iff.mp place).1
        rwa [place] at named
    | large place =>
        have named := large value (List.getElem?_eq_some_iff.mp place).1
        rwa [place] at named

/-! ### Spacing -/

section Spacing

variable {gap rest : List Char}

theorem skipSpace_append (blank : Blank gap) : skipSpace (gap ++ rest) = skipSpace rest := by
  have spacing : ∀ character ∈ gap, isSpace character = true := fun character member =>
    isSpace_iff.mpr (blank character member)
  rw [skipSpace, List.dropWhile_append_of_pos spacing, skipSpace]

theorem skipSpace_cons {first : Char} (visible : isSpace first = false) :
    skipSpace (first :: rest) = first :: rest :=
  List.dropWhile_cons_of_neg (by simp [visible])

theorem skipSpace_skipSpace (text : List Char) : skipSpace (skipSpace text) = skipSpace text :=
  List.dropWhile_idempotent isSpace text

/-- Reading a value begins with the spacing in front of it. -/
theorem readValue_skipSpace (fuel : Nat) (text : List Char) :
    readValue fuel (skipSpace text) = readValue fuel text := by
  cases fuel with
  | zero => rfl
  | succ fuel => rw [readValue, readValue, skipSpace_skipSpace]

theorem readItems_skipSpace (fuel : Nat) (text : List Char) :
    readItems fuel (skipSpace text) = readItems fuel text := by
  cases fuel with
  | zero => rfl
  | succ fuel => rw [readItems, readItems, readValue_skipSpace]

theorem readMembers_skipSpace (fuel : Nat) (text : List Char) :
    readMembers fuel (skipSpace text) = readMembers fuel text := by
  cases fuel with
  | zero => rfl
  | succ fuel => rw [readMembers, readMembers, skipSpace_skipSpace]

def EndsNumber (rest : List Char) : Prop :=
  ∀ next ∈ rest.head?, next.isDigit = false ∧ next ≠ '.' ∧ next ≠ 'e' ∧ next ≠ 'E'

theorem endsNumber_separator {next : Char} (separates : next ∈ [',', ']', '\x7d']) :
    EndsNumber (next :: rest) := by
  intro other isOther
  obtain rfl : next = other := Option.some.inj isOther
  simp only [List.mem_cons, List.not_mem_nil, or_false] at separates
  rcases separates with rfl | rfl | rfl <;> decide

theorem EndsNumber.append (ends : EndsNumber rest) (blank : Blank gap) :
    EndsNumber (gap ++ rest) := by
  cases gap with
  | nil => exact ends
  | cons first others =>
      intro next isNext
      obtain rfl : first = next := Option.some.inj isNext
      have spacing := blank first List.mem_cons_self
      simp only [List.mem_cons, List.not_mem_nil, or_false] at spacing
      rcases spacing with rfl | rfl | rfl | rfl <;> decide

end Spacing

/-! ### Strings -/

theorem readUnits_unit {word : List Char} {unit : Nat} (spelled : SpellsUnit word unit)
    (earlier : List Nat) (rest : List Char) :
    readUnits earlier (word ++ rest) = readUnits (unit :: earlier) rest := by
  cases spelled with
  | digits firstDigit secondDigit thirdDigit fourthDigit =>
      simp only [List.cons_append, List.nil_append]
      rw [readUnits, hexValue?_eq_some_iff.mpr firstDigit, hexValue?_eq_some_iff.mpr secondDigit,
        hexValue?_eq_some_iff.mpr thirdDigit, hexValue?_eq_some_iff.mpr fourthDigit]

theorem readUnits_bare {character : Char} (printable : 0x20 ≤ character.toNat)
    (notQuote : character ≠ '"') (notBackslash : character ≠ '\\') (earlier : List Nat)
    (rest : List Char) :
    readUnits earlier (character :: rest) = readUnits (character.toNat :: earlier) rest := by
  rw [readUnits]
  · exact if_neg (Nat.not_lt.mpr printable)
  all_goals simp [notQuote, notBackslash]

theorem readUnits_short {mark character : Char} (listed : (mark, character) ∈ shortEscapes)
    (earlier : List Nat) (rest : List Char) :
    readUnits earlier ('\\' :: mark :: rest) = readUnits (character.toNat :: earlier) rest := by
  have named := unescape?_eq_some_iff.mpr listed
  have notUnit : mark ≠ 'u' := by
    rintro rfl
    cases named
  rw [readUnits]
  · rw [named]
  · intro a b c d others same
    exact absurd same notUnit

/-- A unit that is a character of its own is no half of a pair. -/
theorem joinUnits?_cons {unit : Nat} (valid : unit.isValidChar) (characters : List Char)
    (units : List Nat) :
    joinUnits? characters (unit :: units) = joinUnits? (Char.ofNat unit :: characters) units := by
  have noHalf : ¬(0xD800 ≤ unit ∧ unit < 0xDC00) := by
    rcases valid with low | high <;> omega
  cases units with
  | nil =>
      rw [joinUnits?, joinUnits?]
      exact if_pos valid
  | cons next units => rw [joinUnits?, if_neg noHalf, if_pos valid]

theorem joinUnits?_toNat_cons (character : Char) (characters : List Char) (units : List Nat) :
    joinUnits? characters (character.toNat :: units) =
      joinUnits? (character :: characters) units := by
  have valid : character.toNat.isValidChar := character.valid
  rw [joinUnits?_cons valid, Char.ofNat_toNat]

/-- The code units of a spelled character are read one after the other, and join to it. -/
theorem readUnits_character {word : List Char} {character : Char}
    (spelled : SpellsCharacter word character) :
    ∃ units : List Nat,
      (∀ earlier rest,
        readUnits earlier (word ++ rest) = readUnits (units.reverse ++ earlier) rest) ∧
      ∀ characters others,
        joinUnits? characters (units ++ others) = joinUnits? (character :: characters) others := by
  cases spelled with
  | bare printable notQuote notBackslash =>
      exact ⟨[character.toNat], readUnits_bare printable notQuote notBackslash,
        joinUnits?_toNat_cons character⟩
  | short named =>
      exact ⟨[character.toNat], readUnits_short named, joinUnits?_toNat_cons character⟩
  | @unit _ unit spelled valid =>
      exact ⟨[unit], readUnits_unit spelled, joinUnits?_cons valid⟩
  | @pair word other high low highSpelled lowSpelled isHigh isLow =>
      refine ⟨[high, low], fun earlier rest => ?_, fun characters others => ?_⟩
      · rw [List.append_assoc, readUnits_unit highSpelled, readUnits_unit lowSpelled]
        rfl
      · simp only [List.cons_append, List.nil_append]
        rw [joinUnits?, if_pos isHigh, if_pos isLow]

theorem readUnits_text {word characters : List Char} (spelled : SpellsText word characters) :
    ∃ units : List Nat,
      (∀ earlier rest,
        readUnits earlier (word ++ '"' :: rest) = some (earlier.reverse ++ units, rest)) ∧
      ∀ before, joinUnits? before units = some (before.reverse ++ characters) := by
  induction spelled with
  | nil =>
      refine ⟨[], fun earlier rest => ?_, fun before => ?_⟩
      · rw [List.nil_append, readUnits, List.append_nil]
      · rw [joinUnits?, List.append_nil]
  | cons spelled othersSpelled inductionHypothesis =>
      obtain ⟨units, unitsRead, unitsJoin⟩ := readUnits_character spelled
      obtain ⟨others, othersRead, othersJoin⟩ := inductionHypothesis
      refine ⟨units ++ others, fun earlier rest => ?_, fun before => ?_⟩
      · rw [List.append_assoc, unitsRead, othersRead, List.reverse_append, List.reverse_reverse,
          List.append_assoc]
      · rw [unitsJoin, othersJoin, List.reverse_cons, List.append_assoc, List.singleton_append]

theorem readString_of_spells {word : List Char} {text : String}
    (spelled : SpellsText word text.toList) (rest : List Char) :
    readString (word ++ '"' :: rest) = some (text, rest) := by
  obtain ⟨units, unitsRead, unitsJoin⟩ := readUnits_text spelled
  have joined : joinUnits? [] units = some text.toList := unitsJoin []
  rw [readString, unitsRead, List.reverse_nil, List.nil_append]
  simp only [Option.bind_eq_bind, Option.bind_some, joined, String.ofList_toList]

/-! ### Numbers -/

section Numbers

variable {word : List Char} {value : Nat}

theorem value_digitChar (small : value < 10) : Decimal.value [Nat.digitChar value] = value := by
  have digit := Nat.toNat_digitChar_of_lt_ten small
  have zero : '0'.toNat = 48 := rfl
  rw [Decimal.value, List.foldl_cons, List.foldl_nil]
  omega

theorem SpellsNat.value_eq (spelled : SpellsNat word value) : Decimal.value word = value := by
  induction spelled with
  | digit small => exact value_digitChar small
  | more spelled positive small same =>
      rw [Decimal.value_append, same, value_digitChar small, List.length_singleton]
      change _ * 10 + _ = _
      omega

theorem SpellsNat.head?_ne_zero (spelled : SpellsNat word value) (positive : 0 < value) :
    word.head? ≠ some '0' := by
  induction spelled with
  | digit small =>
      intro zero
      have digit := Nat.toNat_digitChar_of_lt_ten small
      rw [Option.some.inj zero] at digit
      have code : '0'.toNat = 48 := rfl
      omega
  | more spelled inner small differs =>
      obtain ⟨first, others, rfl⟩ := List.exists_cons_of_ne_nil spelled.ne_nil
      exact differs inner

/-- A number of several digits does not begin with zero. -/
theorem SpellsNat.padded_eq_false (spelled : SpellsNat word value) :
    (word.head? == some '0' && decide (1 < word.length)) = false := by
  by_cases positive : 0 < value
  · have differs : (word.head? == some '0') = false := by
      simpa using spelled.head?_ne_zero positive
    rw [differs, Bool.false_and]
  · cases spelled with
    | digit small => exact Bool.and_false _
    | more spelled inner small => omega

end Numbers

theorem split_of_spells {word rest : List Char} {value : Nat} (spelled : SpellsNat word value)
    (ends : EndsNumber rest) : Numeral.split (word ++ rest) = (⟨word, [], []⟩, rest) := by
  have stops : rest.takeWhile Char.isDigit = [] ∧ rest.dropWhile Char.isDigit = rest := by
    cases rest with
    | nil => exact ⟨rfl, rfl⟩
    | cons next others => simp [(ends next rfl).1]
  have noFraction : Numeral.splitFraction rest = ([], rest) := by
    cases rest with
    | nil => rfl
    | cons next others =>
        rw [Numeral.splitFraction]
        intro digit behind same
        exact (ends next rfl).2.1 (List.cons.inj same).1
  have noExponent : Numeral.splitExponent rest = ([], rest) := by
    cases rest with
    | nil => rfl
    | cons next others =>
        obtain ⟨-, -, notSmall, notLarge⟩ := ends next rfl
        rw [Numeral.splitExponent]
        simp [notSmall, notLarge]
  rw [Numeral.split, List.takeWhile_append_of_pos spelled.isDigit,
    List.dropWhile_append_of_pos spelled.isDigit, stops.1, stops.2, List.append_nil]
  dsimp only
  rw [noFraction, noExponent]

theorem splitMinus_of_spells {word rest : List Char} {value : Nat}
    (spelled : SpellsNat word value) : splitMinus (word ++ rest) = ([], word ++ rest) := by
  obtain ⟨first, others, rfl⟩ := List.exists_cons_of_ne_nil spelled.ne_nil
  have digit := spelled.isDigit first List.mem_cons_self
  rw [List.cons_append, splitMinus]
  intro behind same
  rw [(List.cons.inj same).1] at digit
  cases digit

theorem readNumber_of_spells {word rest : List Char} {value : Int} (spelled : SpellsInt word value)
    (ends : EndsNumber rest) : readNumber (word ++ rest) = some (.int value, rest) := by
  cases spelled with
  | natural spelled =>
      have notEmpty : word.isEmpty = false := List.isEmpty_eq_false_iff.mpr spelled.ne_nil
      simp [readNumber, splitMinus_of_spells spelled, split_of_spells spelled ends, notEmpty,
        spelled.padded_eq_false, spelled.value_eq, Numeral.isWhole]
  | @negative word value spelled positive =>
      have notEmpty : word.isEmpty = false := List.isEmpty_eq_false_iff.mpr spelled.ne_nil
      simp [readNumber, splitMinus, split_of_spells spelled ends, notEmpty,
        spelled.padded_eq_false, spelled.value_eq, Numeral.isWhole, Nat.ne_of_gt positive]

/-! ### First characters -/

theorem SpellsInt.head {word : List Char} {value : Int} (spelled : SpellsInt word value) :
    ∃ first others, word = first :: others ∧ (first = '-' ∨ first.isDigit = true) := by
  cases spelled with
  | natural spelled =>
      obtain ⟨first, others, rfl⟩ := List.exists_cons_of_ne_nil spelled.ne_nil
      exact ⟨first, others, rfl, .inr (spelled.isDigit first List.mem_cons_self)⟩
  | negative spelled positive => exact ⟨'-', _, rfl, .inl rfl⟩

theorem isSpace_eq_false_of_numeric {first : Char} (numeric : first = '-' ∨ first.isDigit = true) :
    isSpace first = false := by
  rw [← Bool.not_eq_true]
  intro spacing
  simp only [isSpace, Bool.or_eq_true, beq_iff_eq] at spacing
  rcases spacing with ((rfl | rfl) | rfl) | rfl <;> revert numeric <;> decide

/-- A value begins neither with a spacing nor with the end of an array. -/
theorem Spells.head {word : List Char} {value : Json} (spelled : Spells word value) :
    ∃ first others, word = first :: others ∧ isSpace first = false ∧ first ≠ ']' := by
  cases spelled with
  | int spelled =>
      obtain ⟨first, others, rfl, numeric⟩ := spelled.head
      refine ⟨first, others, rfl, isSpace_eq_false_of_numeric numeric, ?_⟩
      rintro rfl
      revert numeric
      decide
  | null | yes | no | string spelled | emptyArray blank | array spelled | emptyObject blank
  | object spelled => exact ⟨_, _, rfl, rfl, by decide⟩

theorem SpellsElement.head {word : List Char} {value : Json} (spelled : SpellsElement word value)
    (rest : List Char) :
    ∃ first others, skipSpace (word ++ rest) = first :: others ∧ first ≠ ']' := by
  cases spelled with
  | spaced blankBefore spelled blankBehind =>
      obtain ⟨first, others, rfl, visible, notEnd⟩ := spelled.head
      simp only [List.append_assoc]
      rw [skipSpace_append blankBefore, List.cons_append, skipSpace_cons visible]
      exact ⟨first, _, rfl, notEnd⟩

theorem SpellsItems.head {word : List Char} {items : List Json} (spelled : SpellsItems word items)
    (rest : List Char) :
    ∃ first others, skipSpace (word ++ rest) = first :: others ∧ first ≠ ']' := by
  cases spelled with
  | one spelled => exact spelled.head rest
  | more spelled othersSpelled =>
      rw [List.append_assoc]
      exact spelled.head _

theorem SpellsMember.head {word : List Char} {member : String × Json}
    (spelled : SpellsMember word member) (rest : List Char) :
    ∃ others, skipSpace (word ++ rest) = '"' :: others := by
  cases spelled with
  | pair blankBefore keySpelled blankBehind spelled =>
      simp only [List.append_assoc, List.cons_append]
      exact ⟨_, (skipSpace_append blankBefore).trans (skipSpace_cons rfl)⟩

theorem SpellsMembers.head {word : List Char} {members : List (String × Json)}
    (spelled : SpellsMembers word members) (rest : List Char) :
    ∃ others, skipSpace (word ++ rest) = '"' :: others := by
  cases spelled with
  | one spelled => exact spelled.head rest
  | more spelled othersSpelled =>
      rw [List.append_assoc]
      exact spelled.head _

/-! ### Values -/

theorem readValue_of_spellsInt {word rest : List Char} {value : Int} (spelled : SpellsInt word value)
    (ends : EndsNumber rest) (fuel : Nat) :
    readValue (fuel + 1) (word ++ rest) = some (.int value, rest) := by
  have read := readNumber_of_spells spelled ends
  obtain ⟨first, others, rfl, numeric⟩ := spelled.head
  rw [readValue, List.cons_append, skipSpace_cons (isSpace_eq_false_of_numeric numeric)]
  split
  case h_7 => exact read
  all_goals
    rename_i same
    rw [(List.cons.inj same).1] at numeric
    exact absurd numeric (by decide)

theorem readValue_quote (fuel : Nat) (text : List Char) :
    readValue (fuel + 1) ('"' :: text) =
      (readString text).map fun (value, behind) => (.string value, behind) :=
  rfl

theorem readValue_bracket (fuel : Nat) (text : List Char) :
    readValue (fuel + 1) ('[' :: text) =
      match skipSpace text with
      | ']' :: behind => some (.array [], behind)
      | items => (readItems fuel items).map fun (items, behind) => (.array items, behind) :=
  rfl

theorem readValue_brace (fuel : Nat) (text : List Char) :
    readValue (fuel + 1) ('\x7b' :: text) =
      match skipSpace text with
      | '\x7d' :: behind => some (.object [], behind)
      | members =>
        (readMembers fuel members).map fun (members, behind) => (.object members, behind) :=
  rfl

/-- The items of an array are read unless its end comes first. -/
theorem readValue_array {word rest : List Char} {items : List Json} {fuel : Nat}
    (spelled : SpellsItems word items)
    (read : readItems fuel (word ++ ']' :: rest) = some (items, rest)) :
    readValue (fuel + 1) ('[' :: word ++ [']'] ++ rest) = some (.array items, rest) := by
  obtain ⟨first, others, shape, notEnd⟩ := spelled.head (']' :: rest)
  rw [← readItems_skipSpace, shape] at read
  simp only [List.cons_append, List.append_assoc, List.nil_append]
  rw [readValue_bracket, shape]
  split
  case h_1 same => exact absurd (List.cons.inj same).1 notEnd
  case h_2 => rw [read, Option.map_some]

theorem readValue_object {word rest : List Char} {members : List (String × Json)} {fuel : Nat}
    (spelled : SpellsMembers word members)
    (read : readMembers fuel (word ++ '\x7d' :: rest) = some (members, rest)) :
    readValue (fuel + 1) ('\x7b' :: word ++ ['\x7d'] ++ rest) = some (.object members, rest) := by
  obtain ⟨others, shape⟩ := spelled.head ('\x7d' :: rest)
  rw [← readMembers_skipSpace, shape] at read
  simp only [List.cons_append, List.append_assoc, List.nil_append]
  rw [readValue_brace, shape]
  split
  case h_1 same => exact absurd (List.cons.inj same).1 (by decide)
  case h_2 => rw [read, Option.map_some]

def readBehindMember (fuel : Nat) (member : String × Json) (text : List Char) :
    Option (List (String × Json) × List Char) :=
  match skipSpace text with
  | ',' :: behind => (readMembers fuel behind).bind fun (members, last) =>
      some (member :: members, last)
  | '\x7d' :: behind => some ([member], behind)
  | _ => none

theorem readMembers_quote (fuel : Nat) (text : List Char) :
    readMembers (fuel + 1) ('"' :: text) = (readString text).bind fun (key, behindKey) =>
      match skipSpace behindKey with
      | ':' :: behindColon => (readValue fuel behindColon).bind fun (value, behindValue) =>
          readBehindMember fuel (key, value) behindValue
      | _ => none :=
  rfl

mutual

theorem readValue_of_spells {word rest : List Char} {value : Json} (spelled : Spells word value)
    {fuel : Nat} (enough : word.length ≤ fuel) (ends : EndsNumber rest) :
    readValue fuel (word ++ rest) = some (value, rest) := by
  cases fuel with
  | zero =>
      obtain ⟨first, others, rfl, -⟩ := spelled.head
      exact absurd enough (Nat.not_succ_le_zero _)
  | succ fuel =>
      cases spelled with
      | null => rfl
      | yes => rfl
      | no => rfl
      | int spelled => exact readValue_of_spellsInt spelled ends fuel
      | string spelled =>
          simp only [List.cons_append, List.append_assoc, List.nil_append]
          rw [readValue_quote, readString_of_spells spelled, Option.map_some]
      | emptyArray blank =>
          simp only [List.cons_append, List.append_assoc, List.nil_append]
          rw [readValue_bracket, skipSpace_append blank, skipSpace_cons rfl]
          rfl
      | array spelled =>
          refine readValue_array spelled (readItems_of_spells spelled ?_)
          simp only [List.length_append, List.length_cons, List.length_nil] at enough
          omega
      | emptyObject blank =>
          simp only [List.cons_append, List.append_assoc, List.nil_append]
          rw [readValue_brace, skipSpace_append blank, skipSpace_cons rfl]
          rfl
      | object spelled =>
          refine readValue_object spelled (readMembers_of_spells spelled ?_)
          simp only [List.length_append, List.length_cons, List.length_nil] at enough
          omega

/-- What is behind the value is left with the spacing in front of it. -/
theorem readValue_of_spellsElement {word rest : List Char} {value : Json}
    (spelled : SpellsElement word value) {fuel : Nat} (enough : word.length ≤ fuel)
    (ends : EndsNumber rest) :
    ∃ behind, readValue fuel (word ++ rest) = some (value, behind) ∧
      skipSpace behind = skipSpace rest := by
  cases spelled with
  | @spaced before word behind _ blankBefore spelled blankBehind =>
      refine ⟨behind ++ rest, ?_, skipSpace_append blankBehind⟩
      rw [← readValue_skipSpace]
      simp only [List.append_assoc]
      rw [skipSpace_append blankBefore, readValue_skipSpace]
      refine readValue_of_spells spelled ?_ (ends.append blankBehind)
      simp only [List.length_append] at enough
      omega

theorem readItems_of_spells {word rest : List Char} {items : List Json}
    (spelled : SpellsItems word items) {fuel : Nat} (enough : word.length < fuel) :
    readItems fuel (word ++ ']' :: rest) = some (items, rest) := by
  cases fuel with
  | zero => exact absurd enough (Nat.not_lt_zero _)
  | succ fuel =>
      cases spelled with
      | one spelled =>
          obtain ⟨behind, read, same⟩ :=
            readValue_of_spellsElement spelled (Nat.le_of_lt_succ enough)
              (@endsNumber_separator rest ']' (by decide))
          rw [skipSpace_cons rfl] at same
          rw [readItems, read]
          simp only [Option.bind_eq_bind, Option.bind_some, same]
      | @more word others item items spelled othersSpelled =>
          simp only [List.length_append, List.length_cons] at enough
          obtain ⟨behind, read, same⟩ :=
            readValue_of_spellsElement spelled (show word.length ≤ fuel by omega)
              (@endsNumber_separator (others ++ ']' :: rest) ',' (by decide))
          have othersRead := @readItems_of_spells _ rest _ othersSpelled fuel (by omega)
          rw [skipSpace_cons rfl] at same
          simp only [List.append_assoc, List.cons_append]
          rw [readItems, read]
          simp only [Option.bind_eq_bind, Option.bind_some, same, othersRead]

/-- What is behind the value of a member is left with the spacing in front of it. -/
theorem readMembers_of_spellsMember {word rest : List Char} {member : String × Json}
    (spelled : SpellsMember word member) {fuel : Nat} (enough : word.length ≤ fuel)
    (ends : EndsNumber rest) :
    ∃ behind, skipSpace behind = skipSpace rest ∧
      readMembers (fuel + 1) (word ++ rest) = readBehindMember fuel member behind := by
  cases spelled with
  | @pair before word behind other key value blankBefore keySpelled blankBehind spelled =>
      simp only [List.length_append, List.length_cons] at enough
      obtain ⟨left, read, same⟩ :=
        readValue_of_spellsElement spelled (show other.length ≤ fuel by omega) ends
      refine ⟨left, same, ?_⟩
      simp only [List.append_assoc, List.cons_append]
      rw [← readMembers_skipSpace, skipSpace_append blankBefore, skipSpace_cons rfl,
        readMembers_quote, readString_of_spells keySpelled]
      simp only [Option.bind_some]
      rw [skipSpace_append blankBehind, skipSpace_cons rfl]
      simp only [read, Option.bind_some, readBehindMember]

theorem readMembers_of_spells {word rest : List Char} {members : List (String × Json)}
    (spelled : SpellsMembers word members) {fuel : Nat} (enough : word.length < fuel) :
    readMembers fuel (word ++ '\x7d' :: rest) = some (members, rest) := by
  cases fuel with
  | zero => exact absurd enough (Nat.not_lt_zero _)
  | succ fuel =>
      cases spelled with
      | one spelled =>
          obtain ⟨behind, same, read⟩ :=
            readMembers_of_spellsMember spelled (Nat.le_of_lt_succ enough)
              (@endsNumber_separator rest '\x7d' (by decide))
          rw [skipSpace_cons rfl] at same
          rw [read, readBehindMember, same]
          rfl
      | @more word others member members spelled othersSpelled =>
          simp only [List.length_append, List.length_cons] at enough
          obtain ⟨behind, same, read⟩ :=
            readMembers_of_spellsMember spelled (show word.length ≤ fuel by omega)
              (@endsNumber_separator (others ++ '\x7d' :: rest) ',' (by decide))
          have othersRead := @readMembers_of_spells _ rest _ othersSpelled fuel (by omega)
          rw [skipSpace_cons rfl] at same
          simp only [List.append_assoc, List.cons_append]
          rw [read, readBehindMember, same]
          simp only [Option.bind_some, othersRead]

end

/-- A text says the value that it spells. -/
theorem document?_of_spells {text : String} {value : Json}
    (spelled : SpellsElement text.toList value) : document? text = some value := by
  have ends : EndsNumber [] := fun next isNext => nomatch isNext
  have enough : text.toList.length ≤ 2 * text.length + 2 := by
    rw [String.length_toList]
    omega
  obtain ⟨behind, read, same⟩ := readValue_of_spellsElement spelled enough ends
  rw [List.append_nil] at read
  rw [document?, read]
  simp only [same]
  rfl

end StagedAnalysis.Json
