import StagedAnalysis.Json.Basic
/-!
Which texts are JSON, as rules that say which rows of characters spell which values.

A value has spacing around it wherever it stands as an item, behind a colon or as a whole text. A
string may spell a character by itself or by an escape, and a character beyond the 16-bit units by
two of them. The only numbers are whole ones: a text that is spelled by these rules holds no other.

No layout is chosen here, and no fuel and no order of reading occurs.
-/
namespace StagedAnalysis.Json

def Blank (gap : List Char) : Prop :=
  ∀ character ∈ gap, character ∈ [' ', '\t', '\n', '\r']

/-! ### Strings and numbers -/

def smallHexDigits : List Char :=
  ['0', '1', '2', '3', '4', '5', '6', '7', '8', '9', 'a', 'b', 'c', 'd', 'e', 'f']

def largeHexDigits : List Char :=
  ['0', '1', '2', '3', '4', '5', '6', '7', '8', '9', 'A', 'B', 'C', 'D', 'E', 'F']

inductive SpellsDigit : Char → Nat → Prop
  | small {digit : Char} {value : Nat} (place : smallHexDigits[value]? = some digit) :
      SpellsDigit digit value
  | large {digit : Char} {value : Nat} (place : largeHexDigits[value]? = some digit) :
      SpellsDigit digit value

inductive SpellsUnit : List Char → Nat → Prop
  | digits {a b c d : Char} {first second third fourth : Nat} (firstDigit : SpellsDigit a first)
      (secondDigit : SpellsDigit b second) (thirdDigit : SpellsDigit c third)
      (fourthDigit : SpellsDigit d fourth) :
      SpellsUnit ['\\', 'u', a, b, c, d] (((first * 16 + second) * 16 + third) * 16 + fourth)

/-- The marks that stand behind a backslash, each with the character that it stands for. -/
def shortEscapes : List (Char × Char) :=
  [('"', '"'), ('\\', '\\'), ('/', '/'), ('b', '\x08'), ('f', '\x0c'), ('n', '\n'), ('r', '\r'),
    ('t', '\t')]

inductive SpellsCharacter : List Char → Char → Prop
  | bare {character : Char} (printable : 0x20 ≤ character.toNat) (notQuote : character ≠ '"')
      (notBackslash : character ≠ '\\') : SpellsCharacter [character] character
  | short {mark character : Char} (named : (mark, character) ∈ shortEscapes) :
      SpellsCharacter ['\\', mark] character
  | unit {word : List Char} {unit : Nat} (spelled : SpellsUnit word unit)
      (valid : unit.isValidChar) : SpellsCharacter word (Char.ofNat unit)
  | pair {word other : List Char} {high low : Nat} (highSpelled : SpellsUnit word high)
      (lowSpelled : SpellsUnit other low) (isHigh : 0xD800 ≤ high ∧ high < 0xDC00)
      (isLow : 0xDC00 ≤ low ∧ low < 0xE000) :
      SpellsCharacter (word ++ other)
        (Char.ofNat (0x10000 + (high - 0xD800) * 0x400 + (low - 0xDC00)))

inductive SpellsText : List Char → List Char → Prop
  | nil : SpellsText [] []
  | cons {word others : List Char} {character : Char} {characters : List Char}
      (spelled : SpellsCharacter word character) (othersSpelled : SpellsText others characters) :
      SpellsText (word ++ others) (character :: characters)

/-- Decimal digits, of which the first is zero only if it is the only one. -/
inductive SpellsNat : List Char → Nat → Prop
  | digit {value : Nat} (small : value < 10) : SpellsNat [Nat.digitChar value] value
  | more {word : List Char} {value last : Nat} (spelled : SpellsNat word value)
      (positive : 0 < value) (small : last < 10) :
      SpellsNat (word ++ [Nat.digitChar last]) (10 * value + last)

inductive SpellsInt : List Char → Int → Prop
  | natural {word : List Char} {value : Nat} (spelled : SpellsNat word value) : SpellsInt word value
  | negative {word : List Char} {value : Nat} (spelled : SpellsNat word value)
      (positive : 0 < value) : SpellsInt ('-' :: word) (-value)

/-! ### Values -/

mutual

inductive Spells : List Char → Json → Prop
  | null : Spells ['n', 'u', 'l', 'l'] .null
  | yes : Spells ['t', 'r', 'u', 'e'] (.bool true)
  | no : Spells ['f', 'a', 'l', 's', 'e'] (.bool false)
  | int {word : List Char} {value : Int} (spelled : SpellsInt word value) : Spells word (.int value)
  | string {word : List Char} {text : String} (spelled : SpellsText word text.toList) :
      Spells ('"' :: word ++ ['"']) (.string text)
  | emptyArray {gap : List Char} (blank : Blank gap) : Spells ('[' :: gap ++ [']']) (.array [])
  | array {word : List Char} {items : List Json} (spelled : SpellsItems word items) :
      Spells ('[' :: word ++ [']']) (.array items)
  | emptyObject {gap : List Char} (blank : Blank gap) :
      Spells ('\x7b' :: gap ++ ['\x7d']) (.object [])
  | object {word : List Char} {members : List (String × Json)}
      (spelled : SpellsMembers word members) :
      Spells ('\x7b' :: word ++ ['\x7d']) (.object members)

inductive SpellsElement : List Char → Json → Prop
  | spaced {before word behind : List Char} {value : Json} (blankBefore : Blank before)
      (spelled : Spells word value) (blankBehind : Blank behind) :
      SpellsElement (before ++ word ++ behind) value

inductive SpellsItems : List Char → List Json → Prop
  | one {word : List Char} {item : Json} (spelled : SpellsElement word item) :
      SpellsItems word [item]
  | more {word others : List Char} {item : Json} {items : List Json}
      (spelled : SpellsElement word item) (othersSpelled : SpellsItems others items) :
      SpellsItems (word ++ ',' :: others) (item :: items)

inductive SpellsMember : List Char → String × Json → Prop
  | pair {before word behind other : List Char} {key : String} {value : Json}
      (blankBefore : Blank before) (keySpelled : SpellsText word key.toList)
      (blankBehind : Blank behind) (spelled : SpellsElement other value) :
      SpellsMember (before ++ '"' :: word ++ '"' :: behind ++ ':' :: other) (key, value)

inductive SpellsMembers : List Char → List (String × Json) → Prop
  | one {word : List Char} {member : String × Json} (spelled : SpellsMember word member) :
      SpellsMembers word [member]
  | more {word others : List Char} {member : String × Json} {members : List (String × Json)}
      (spelled : SpellsMember word member) (othersSpelled : SpellsMembers others members) :
      SpellsMembers (word ++ ',' :: others) (member :: members)

end

/-- A value that every reader takes: its numbers have 64 bits, and at most `depth` arrays and objects
lie inside each other. -/
inductive Fits : Nat → Json → Prop
  | null {depth : Nat} : Fits depth .null
  | bool {depth : Nat} (value : Bool) : Fits depth (.bool value)
  | int {depth : Nat} {value : Int} (lower : -0x8000000000000000 ≤ value)
      (upper : value < 0x10000000000000000) : Fits depth (.int value)
  | string {depth : Nat} (text : String) : Fits depth (.string text)
  | array {depth : Nat} {items : List Json} (inside : ∀ item ∈ items, Fits depth item) :
      Fits (depth + 1) (.array items)
  | object {depth : Nat} {members : List (String × Json)}
      (inside : ∀ member ∈ members, Fits depth member.2) : Fits (depth + 1) (.object members)

/-! ### Numbers -/

variable {word : List Char} {value : Nat}

theorem SpellsNat.isDigit (spelled : SpellsNat word value) :
    ∀ digit ∈ word, digit.isDigit = true := by
  induction spelled with
  | digit small => simpa [Nat.isDigit_digitChar] using small
  | more spelled positive small digits =>
      refine List.forall_mem_append.mpr ⟨digits, ?_⟩
      simpa [Nat.isDigit_digitChar] using small

theorem SpellsNat.ne_nil (spelled : SpellsNat word value) : word ≠ [] := by
  cases spelled <;> simp

end StagedAnalysis.Json
