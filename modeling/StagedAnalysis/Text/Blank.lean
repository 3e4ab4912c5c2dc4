/-!
Blank text. A character is blank if it has the Unicode property `White_Space`; this is wider than
the four characters that separate tokens.
-/
namespace StagedAnalysis.Text

/-- The ranges of code points with the property `White_Space`, ends included. -/
def blankRanges : List (Nat × Nat) :=
  [(0x09, 0x0D), (0x20, 0x20), (0x85, 0x85), (0xA0, 0xA0), (0x1680, 0x1680), (0x2000, 0x200A),
    (0x2028, 0x2029), (0x202F, 0x202F), (0x205F, 0x205F), (0x3000, 0x3000)]

def isBlankCharacter (character : Char) : Bool :=
  blankRanges.any fun (first, last) => first ≤ character.toNat && character.toNat ≤ last

def isBlank (text : String) : Bool :=
  text.toList.all isBlankCharacter

theorem isBlankCharacter_of_isWhitespace {character : Char}
    (white : character.isWhitespace = true) :
    isBlankCharacter character = true := by
  simp only [Char.isWhitespace, Bool.or_eq_true, decide_eq_true_eq] at white
  rcases white with ((rfl | rfl) | rfl) | rfl <;> decide

example : (blankRanges.map fun (first, last) => last - first + 1).sum = 25 := by decide

end StagedAnalysis.Text
