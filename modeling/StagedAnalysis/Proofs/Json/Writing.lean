import Mathlib.Tactic.SplitIfs
import StagedAnalysis.Json.Writer
import StagedAnalysis.Proofs.Json.Format
/-!
The writer and the rules of the format agree: a text that the rules show for a value is the one that
is written, and what is written of a value that readers take is shown by the rules.
-/
namespace StagedAnalysis.Json

/-! ### Strings -/

theorem smallHexDigits_hexDigit {value : Nat} (small : value < 16) :
    smallHexDigits[value]? = some (hexDigit value) := by
  revert value
  decide

theorem ShowsCharacter.escapeCharacter_eq {word : List Char} {character : Char}
    (shown : ShowsCharacter word character) : escapeCharacter character = word := by
  cases shown with
  | bare printable notQuote notBackslash =>
      rw [escapeCharacter, if_neg notQuote, if_neg notBackslash, if_neg, if_neg, if_neg, if_neg,
        if_neg, if_neg (Nat.not_lt.mpr printable)]
      all_goals
        rintro rfl
        revert printable
        decide
  | short named notSlash =>
      have marks : ∀ escape ∈ shortEscapes, escape.1 ≠ '/' →
          escapeCharacter escape.2 = ['\\', escape.1] := by
        decide
      exact marks _ named notSlash
  | control below unnamed highPlace lowPlace =>
      have high := (smallHexDigits_hexDigit (show character.toNat / 16 < 16 by omega)).symm.trans
        highPlace
      have low := (smallHexDigits_hexDigit (show character.toNat % 16 < 16 by omega)).symm.trans
        lowPlace
      rw [← Option.some.inj high, ← Option.some.inj low]
      rw [escapeCharacter, if_neg, if_neg, if_neg, if_neg, if_neg, if_neg, if_neg, if_pos below]
      all_goals
        rintro rfl
        simp [shortEscapes] at unnamed

theorem escapeCharacter_shown (character : Char) :
    ShowsCharacter (escapeCharacter character) character := by
  rw [escapeCharacter]
  split_ifs with quote backslash back feed line carriage tab control
  · exact .short (by rw [quote]; decide) (by decide)
  · exact .short (by rw [backslash]; decide) (by decide)
  · exact .short (by rw [back]; decide) (by decide)
  · exact .short (by rw [feed]; decide) (by decide)
  · exact .short (by rw [line]; decide) (by decide)
  · exact .short (by rw [carriage]; decide) (by decide)
  · exact .short (by rw [tab]; decide) (by decide)
  · refine .control control (fun mark named => ?_)
      (smallHexDigits_hexDigit (by omega)) (smallHexDigits_hexDigit (by omega))
    have notSlash : character ≠ '/' := by
      rintro rfl
      revert control
      decide
    simp [shortEscapes, *] at named
  · exact .bare (Nat.not_lt.mp control) quote backslash

theorem ShowsText.escape_eq {word characters : List Char} (shown : ShowsText word characters) :
    characters.flatMap escapeCharacter = word := by
  induction shown with
  | nil => rfl
  | cons shown othersShown others => rw [List.flatMap_cons, shown.escapeCharacter_eq, others]

theorem escape_shown (characters : List Char) :
    ShowsText (characters.flatMap escapeCharacter) characters := by
  induction characters with
  | nil => exact .nil
  | cons character characters shown => exact .cons (escapeCharacter_shown character) shown

/-! ### Numbers -/

theorem SpellsNat.toDigits_eq {word : List Char} {value : Nat} (spelled : SpellsNat word value) :
    Nat.toDigits 10 value = word := by
  induction spelled with
  | digit small => exact Nat.toDigits_of_lt_base small
  | @more word value last spelled positive small digits =>
      rw [Nat.toDigits_of_base_le (by omega) (by omega),
        show (10 * value + last) / 10 = value by omega, digits,
        show (10 * value + last) % 10 = last by omega]

theorem SpellsInt.writeInt_eq {word : List Char} {value : Int} (spelled : SpellsInt word value) :
    writeInt value = word := by
  cases spelled with
  | natural spelled => exact spelled.toDigits_eq
  | @negative word value spelled positive =>
      obtain ⟨before, rfl⟩ := Nat.exists_eq_succ_of_ne_zero (Nat.ne_of_gt positive)
      exact congrArg ('-' :: ·) spelled.toDigits_eq

theorem toDigits_spells (value : Nat) : SpellsNat (Nat.toDigits 10 value) value := by
  induction value using Nat.strongRecOn with
  | ind value inductionHypothesis =>
      by_cases small : value < 10
      · rw [Nat.toDigits_of_lt_base small]
        exact .digit small
      · have spelled := SpellsNat.more (inductionHypothesis (value / 10) (by omega))
          (show 0 < value / 10 by omega) (show value % 10 < 10 by omega)
        rw [show 10 * (value / 10) + value % 10 = value by omega] at spelled
        rwa [Nat.toDigits_of_base_le (by omega) (by omega)]

theorem writeInt_spells (value : Int) : SpellsInt (writeInt value) value := by
  cases value with
  | ofNat value => exact .natural (toDigits_spells value)
  | negSucc value => exact .negative (toDigits_spells (value + 1)) (Nat.succ_pos value)

/-! ### Values -/

theorem Layout.deeper_colon (layout : Layout) : layout.deeper.colon = layout.colon := by
  cases layout <;> rfl

mutual

theorem Shows.write_eq {layout : Layout} {word : List Char} {value : Json}
    (shown : Shows layout word value) : value.write layout = word := by
  cases shown with
  | null | yes | no | emptyArray | emptyObject => rfl
  | int spelled => exact spelled.writeInt_eq
  | string shown => rw [write, quote, shown.escape_eq]
  | array shown =>
      obtain ⟨item, items, rfl, same⟩ := shown.write_eq
      rw [write, ← same]
      simp only [List.append_assoc, List.cons_append]
  | object shown =>
      obtain ⟨key, value, members, rfl, same⟩ := shown.write_eq
      rw [write, ← same, layout.deeper_colon]
      simp only [List.append_assoc, List.cons_append]

theorem ShowsItems.write_eq {layout : Layout} {word : List Char} {items : List Json}
    (shown : ShowsItems layout word items) :
    ∃ item others, items = item :: others ∧
      layout.lineBreak ++ write layout item ++ writeItems layout others = word := by
  cases shown with
  | one shown => exact ⟨_, [], rfl, by rw [shown.write_eq, writeItems, List.append_nil]⟩
  | more shown othersShown =>
      obtain ⟨next, others, rfl, same⟩ := othersShown.write_eq
      refine ⟨_, _, rfl, ?_⟩
      rw [shown.write_eq, writeItems, ← same]
      simp only [List.append_assoc, List.cons_append]

theorem ShowsMember.write_eq {layout : Layout} {word : List Char} {member : String × Json}
    (shown : ShowsMember layout word member) :
    quote member.1 ++ layout.colon ++ write layout member.2 = word := by
  cases shown with
  | pair keyShown shown =>
      rw [shown.write_eq, quote, keyShown.escape_eq]
      simp only [List.append_assoc, List.cons_append, List.nil_append]

theorem ShowsMembers.write_eq {layout : Layout} {word : List Char}
    {members : List (String × Json)} (shown : ShowsMembers layout word members) :
    ∃ key value others, members = (key, value) :: others ∧
      layout.lineBreak ++ quote key ++ layout.colon ++ write layout value
        ++ writeMembers layout others = word := by
  cases shown with
  | one shown =>
      refine ⟨_, _, [], rfl, ?_⟩
      rw [← shown.write_eq, writeMembers, List.append_nil]
      simp only [List.append_assoc]
  | more shown othersShown =>
      obtain ⟨key, value, others, rfl, same⟩ := othersShown.write_eq
      refine ⟨_, _, _, rfl, ?_⟩
      rw [← shown.write_eq, writeMembers, ← same]
      simp only [List.append_assoc, List.cons_append]

end

theorem writeItems_shown {layout : Layout} {item : Json} {items : List Json}
    (shown : Shows layout (item.write layout) item)
    (othersShown : ∀ other ∈ items, Shows layout (other.write layout) other) :
    ShowsItems layout (layout.lineBreak ++ write layout item ++ writeItems layout items)
      (item :: items) := by
  induction items generalizing item with
  | nil =>
      rw [writeItems, List.append_nil]
      exact .one shown
  | cons next items inductionHypothesis =>
      rw [List.forall_mem_cons] at othersShown
      have others := inductionHypothesis othersShown.1 othersShown.2
      simpa only [writeItems, List.append_assoc, List.cons_append] using ShowsItems.more shown others

theorem writeMembers_shown {layout : Layout} {member : String × Json}
    {members : List (String × Json)}
    (shown : Shows layout (member.2.write layout) member.2)
    (othersShown : ∀ other ∈ members, Shows layout (other.2.write layout) other.2) :
    ShowsMembers layout
      (layout.lineBreak ++ quote member.1 ++ layout.colon ++ write layout member.2
        ++ writeMembers layout members) (member :: members) := by
  induction members generalizing member with
  | nil =>
      have pair := ShowsMember.pair (escape_shown member.1.toList) shown
      simpa only [writeMembers, quote, List.append_assoc, List.cons_append, List.nil_append,
        List.append_nil] using ShowsMembers.one pair
  | cons next members inductionHypothesis =>
      rw [List.forall_mem_cons] at othersShown
      have pair := ShowsMember.pair (escape_shown member.1.toList) shown
      have others := inductionHypothesis othersShown.1 othersShown.2
      simpa only [writeMembers, quote, List.append_assoc, List.cons_append, List.nil_append]
        using ShowsMembers.more pair others

/-- A value that readers take is written as the format wants it. -/
theorem Fits.write_shown {depth : Nat} {value : Json} (fits : Fits depth value) (layout : Layout) :
    Shows layout (value.write layout) value := by
  induction fits generalizing layout with
  | null => exact .null
  | bool value => cases value with
    | false => exact .no
    | true => exact .yes
  | int lower upper => exact .int (writeInt_spells _)
  | string text => exact .string (escape_shown text.toList)
  | @array depth items inside inductionHypothesis =>
      cases items with
      | nil => exact .emptyArray
      | cons item items =>
          obtain ⟨first, others⟩ := List.forall_mem_cons.mp inductionHypothesis
          have shown := Shows.array (writeItems_shown (first layout.deeper)
            fun other member => others other member layout.deeper)
          simpa only [write, List.append_assoc, List.cons_append] using shown
  | @object depth members inside inductionHypothesis =>
      cases members with
      | nil => exact .emptyObject
      | cons member members =>
          obtain ⟨first, others⟩ := List.forall_mem_cons.mp inductionHypothesis
          have shown := Shows.object (writeMembers_shown (first layout.deeper)
            fun other member => others other member layout.deeper)
          simpa only [write, layout.deeper_colon, List.append_assoc, List.cons_append] using shown

end StagedAnalysis.Json
