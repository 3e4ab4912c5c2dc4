import StagedAnalysis.Proofs.Json.Spelling
/-!
The texts in which JSON is written, as rules apart from any writer: one text for each value in each
layout.

On one line there is no spacing. Over lines every item and every member has a line of its own, two
spaces further in than what it is part of, and a space stands between a colon and a value; nothing
stands between the brackets of an empty array or object. Quotes, backslashes and the characters
below the space are escaped, by a short mark where there is one. Nothing else is.
-/
namespace StagedAnalysis.Json

/-- One character of a string. No short mark is used for the slash, which needs none. -/
inductive ShowsCharacter : List Char → Char → Prop
  | bare {character : Char} (printable : 0x20 ≤ character.toNat) (notQuote : character ≠ '"')
      (notBackslash : character ≠ '\\') : ShowsCharacter [character] character
  | short {mark character : Char} (named : (mark, character) ∈ shortEscapes) (notSlash : mark ≠ '/') :
      ShowsCharacter ['\\', mark] character
  | control {character high low : Char} (below : character.toNat < 0x20)
      (unnamed : ∀ mark, (mark, character) ∉ shortEscapes)
      (highPlace : smallHexDigits[character.toNat / 16]? = some high)
      (lowPlace : smallHexDigits[character.toNat % 16]? = some low) :
      ShowsCharacter ['\\', 'u', '0', '0', high, low] character

inductive ShowsText : List Char → List Char → Prop
  | nil : ShowsText [] []
  | cons {word others : List Char} {character : Char} {characters : List Char}
      (shown : ShowsCharacter word character) (othersShown : ShowsText others characters) :
      ShowsText (word ++ others) (character :: characters)

mutual

inductive Shows : Layout → List Char → Json → Prop
  | null {layout : Layout} : Shows layout ['n', 'u', 'l', 'l'] .null
  | yes {layout : Layout} : Shows layout ['t', 'r', 'u', 'e'] (.bool true)
  | no {layout : Layout} : Shows layout ['f', 'a', 'l', 's', 'e'] (.bool false)
  | int {layout : Layout} {word : List Char} {value : Int} (spelled : SpellsInt word value) :
      Shows layout word (.int value)
  | string {layout : Layout} {word : List Char} {text : String}
      (shown : ShowsText word text.toList) : Shows layout ('"' :: word ++ ['"']) (.string text)
  | emptyArray {layout : Layout} : Shows layout ['[', ']'] (.array [])
  | array {layout : Layout} {word : List Char} {items : List Json}
      (shown : ShowsItems layout.deeper word items) :
      Shows layout ('[' :: word ++ layout.lineBreak ++ [']']) (.array items)
  | emptyObject {layout : Layout} : Shows layout ['\x7b', '\x7d'] (.object [])
  | object {layout : Layout} {word : List Char} {members : List (String × Json)}
      (shown : ShowsMembers layout.deeper word members) :
      Shows layout ('\x7b' :: word ++ layout.lineBreak ++ ['\x7d']) (.object members)

inductive ShowsItems : Layout → List Char → List Json → Prop
  | one {layout : Layout} {word : List Char} {item : Json} (shown : Shows layout word item) :
      ShowsItems layout (layout.lineBreak ++ word) [item]
  | more {layout : Layout} {word others : List Char} {item : Json} {items : List Json}
      (shown : Shows layout word item) (othersShown : ShowsItems layout others items) :
      ShowsItems layout (layout.lineBreak ++ word ++ ',' :: others) (item :: items)

inductive ShowsMember : Layout → List Char → String × Json → Prop
  | pair {layout : Layout} {name word : List Char} {key : String} {value : Json}
      (keyShown : ShowsText name key.toList) (shown : Shows layout word value) :
      ShowsMember layout ('"' :: name ++ '"' :: layout.colon ++ word) (key, value)

inductive ShowsMembers : Layout → List Char → List (String × Json) → Prop
  | one {layout : Layout} {word : List Char} {member : String × Json}
      (shown : ShowsMember layout word member) :
      ShowsMembers layout (layout.lineBreak ++ word) [member]
  | more {layout : Layout} {word others : List Char} {member : String × Json}
      {members : List (String × Json)} (shown : ShowsMember layout word member)
      (othersShown : ShowsMembers layout others members) :
      ShowsMembers layout (layout.lineBreak ++ word ++ ',' :: others) (member :: members)

end

/-! ### What is shown is spelled -/

theorem Layout.lineBreak_blank (layout : Layout) : Blank layout.lineBreak := by
  cases layout with
  | compact => exact List.forall_mem_nil _
  | indented level =>
      refine List.forall_mem_cons.mpr ⟨by decide, fun character member => ?_⟩
      rw [List.eq_of_mem_replicate member]
      decide

theorem Layout.colon_eq_cons (layout : Layout) :
    ∃ gap, Blank gap ∧ layout.colon = ':' :: gap := by
  cases layout with
  | compact => exact ⟨[], List.forall_mem_nil _, rfl⟩
  | indented level => exact ⟨[' '], List.forall_mem_singleton.mpr (by decide), rfl⟩

theorem ShowsCharacter.spelled {word : List Char} {character : Char}
    (shown : ShowsCharacter word character) : SpellsCharacter word character := by
  cases shown with
  | bare printable notQuote notBackslash => exact .bare printable notQuote notBackslash
  | short named notSlash => exact .short named
  | control below unnamed highPlace lowPlace =>
      have unit := SpellsUnit.digits (.small (show smallHexDigits[0]? = some '0' from rfl))
        (.small (show smallHexDigits[0]? = some '0' from rfl)) (.small highPlace) (.small lowPlace)
      have value : ((0 * 16 + 0) * 16 + character.toNat / 16) * 16 + character.toNat % 16 =
          character.toNat := by
        omega
      rw [value] at unit
      have spelled := SpellsCharacter.unit unit character.valid
      rwa [Char.ofNat_toNat] at spelled

theorem ShowsText.spelled {word characters : List Char} (shown : ShowsText word characters) :
    SpellsText word characters := by
  induction shown with
  | nil => exact .nil
  | cons shown othersShown others => exact .cons shown.spelled others

mutual

theorem Shows.spelled {layout : Layout} {word : List Char} {value : Json}
    (shown : Shows layout word value) : Spells word value := by
  cases shown with
  | null => exact .null
  | yes => exact .yes
  | no => exact .no
  | int spelled => exact .int spelled
  | string shown => exact .string shown.spelled
  | emptyArray => exact @Spells.emptyArray [] (List.forall_mem_nil _)
  | array shown =>
      have items := shown.spelled layout.lineBreak_blank
      exact .array items
  | emptyObject => exact @Spells.emptyObject [] (List.forall_mem_nil _)
  | object shown =>
      have members := shown.spelled layout.lineBreak_blank
      exact .object members

theorem ShowsItems.spelled {layout : Layout} {word gap : List Char} {items : List Json}
    (shown : ShowsItems layout word items) (blank : Blank gap) :
    SpellsItems (word ++ gap) items := by
  cases shown with
  | one shown => exact .one (.spaced layout.lineBreak_blank shown.spelled blank)
  | more shown othersShown =>
      have first := SpellsElement.spaced layout.lineBreak_blank shown.spelled
        (List.forall_mem_nil _)
      rw [List.append_nil] at first
      rw [List.append_assoc]
      exact .more first (othersShown.spelled blank)

theorem ShowsMember.spelled {layout : Layout} {word gap : List Char} {member : String × Json}
    (shown : ShowsMember layout word member) (blank : Blank gap) :
    SpellsMember (layout.lineBreak ++ word ++ gap) member := by
  cases shown with
  | pair keyShown shown =>
      obtain ⟨between, betweenBlank, colon⟩ := layout.colon_eq_cons
      have spelled := SpellsMember.pair layout.lineBreak_blank keyShown.spelled
        (List.forall_mem_nil _) (.spaced betweenBlank shown.spelled blank)
      simpa only [colon, List.append_assoc, List.cons_append, List.nil_append] using spelled

theorem ShowsMembers.spelled {layout : Layout} {word gap : List Char}
    {members : List (String × Json)} (shown : ShowsMembers layout word members)
    (blank : Blank gap) : SpellsMembers (word ++ gap) members := by
  cases shown with
  | one shown => exact .one (shown.spelled blank)
  | more shown othersShown =>
      have first := shown.spelled (List.forall_mem_nil _)
      rw [List.append_nil] at first
      rw [List.append_assoc]
      exact .more first (othersShown.spelled blank)

end

/-! ### Characters below the space -/

def Printable (text : List Char) : Prop :=
  ∀ character ∈ text, 0x20 ≤ character.toNat

instance (text : List Char) : Decidable (Printable text) :=
  List.decidableBAll (fun character : Char => 0x20 ≤ character.toNat) text

theorem Printable.append {first second : List Char} (firstPrintable : Printable first)
    (secondPrintable : Printable second) : Printable (first ++ second) :=
  List.forall_mem_append.mpr ⟨firstPrintable, secondPrintable⟩

theorem Printable.cons {first : Char} {others : List Char} (printable : 0x20 ≤ first.toNat)
    (othersPrintable : Printable others) : Printable (first :: others) :=
  List.forall_mem_cons.mpr ⟨printable, othersPrintable⟩

theorem SpellsNat.printable {word : List Char} {value : Nat} (spelled : SpellsNat word value) :
    Printable word := by
  intro digit member
  have isDigit := spelled.isDigit digit member
  rw [Char.isDigit, Bool.and_eq_true] at isDigit
  exact Nat.le_trans (by decide) (of_decide_eq_true isDigit.1)

theorem SpellsInt.printable {word : List Char} {value : Int} (spelled : SpellsInt word value) :
    Printable word := by
  cases spelled with
  | natural spelled => exact spelled.printable
  | negative spelled positive => exact .cons (by decide) spelled.printable

theorem smallHexDigits_printable : Printable smallHexDigits := by
  decide

theorem ShowsCharacter.printable {word : List Char} {character : Char}
    (shown : ShowsCharacter word character) : Printable word := by
  cases shown with
  | bare printable notQuote notBackslash => exact List.forall_mem_singleton.mpr printable
  | @short mark character named notSlash =>
      have marks : ∀ escape ∈ shortEscapes, 0x20 ≤ escape.1.toNat := by decide
      exact .cons (by decide) (List.forall_mem_singleton.mpr (marks _ named))
  | control below unnamed highPlace lowPlace =>
      have high := smallHexDigits_printable _ (List.mem_of_getElem? highPlace)
      have low := smallHexDigits_printable _ (List.mem_of_getElem? lowPlace)
      simp [Printable, high, low]

theorem ShowsText.printable {word characters : List Char} (shown : ShowsText word characters) :
    Printable word := by
  induction shown with
  | nil => exact List.forall_mem_nil _
  | cons shown othersShown others => exact shown.printable.append others

theorem ShowsText.quoted_printable {word characters : List Char}
    (shown : ShowsText word characters) : Printable ('"' :: word ++ ['"']) :=
  .append (.cons (by decide) shown.printable) (by decide)

mutual

theorem Shows.printable {layout : Layout} {word : List Char} {value : Json}
    (shown : Shows layout word value) (oneLine : layout = .compact) : Printable word := by
  cases shown with
  | null | yes | no | emptyArray | emptyObject => decide
  | int spelled => exact spelled.printable
  | string shown => exact shown.quoted_printable
  | array shown =>
      subst oneLine
      exact .append (.append (.cons (by decide) (shown.printable rfl)) (by decide)) (by decide)
  | object shown =>
      subst oneLine
      exact .append (.append (.cons (by decide) (shown.printable rfl)) (by decide)) (by decide)

theorem ShowsItems.printable {layout : Layout} {word : List Char} {items : List Json}
    (shown : ShowsItems layout word items) (oneLine : layout = .compact) : Printable word := by
  cases shown with
  | one shown =>
      have item := shown.printable oneLine
      subst oneLine
      exact item
  | more shown othersShown =>
      have item := shown.printable oneLine
      have others := othersShown.printable oneLine
      subst oneLine
      exact item.append (.cons (by decide) others)

theorem ShowsMember.printable {layout : Layout} {word : List Char} {member : String × Json}
    (shown : ShowsMember layout word member) (oneLine : layout = .compact) : Printable word := by
  cases shown with
  | pair keyShown shown =>
      have value := shown.printable oneLine
      have key := keyShown.printable
      subst oneLine
      exact .append (.append (.cons (by decide) key) (by decide)) value

theorem ShowsMembers.printable {layout : Layout} {word : List Char}
    {members : List (String × Json)} (shown : ShowsMembers layout word members)
    (oneLine : layout = .compact) : Printable word := by
  cases shown with
  | one shown =>
      have member := shown.printable oneLine
      subst oneLine
      exact member
  | more shown othersShown =>
      have member := shown.printable oneLine
      have others := othersShown.printable oneLine
      subst oneLine
      exact member.append (.cons (by decide) others)

end

end StagedAnalysis.Json
