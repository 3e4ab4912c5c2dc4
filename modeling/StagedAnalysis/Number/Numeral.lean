import StagedAnalysis.Number.Binary64
/-!
Number literals. The longest text of the form `D+ (. D+)? ([eE] [+-]? D+)?` is a numeral, where
`D` is a decimal digit. Without fraction and exponent it stands for a whole number, otherwise for
the nearest binary number.
-/
namespace StagedAnalysis

/-- A numeral in three parts: the digits in front, the point with its digits, the mark with sign and
digits. The last two may be empty. -/
structure Numeral where
  whole : List Char
  fraction : List Char
  exponent : List Char
  deriving DecidableEq

namespace Numeral

def splitFraction : List Char → List Char × List Char
  | '.' :: digit :: rest =>
    if digit.isDigit then
      ('.' :: digit :: rest.takeWhile Char.isDigit, rest.dropWhile Char.isDigit)
    else ([], '.' :: digit :: rest)
  | text => ([], text)

def splitSign : List Char → List Char × List Char
  | '+' :: rest => (['+'], rest)
  | '-' :: rest => (['-'], rest)
  | text => ([], text)

def splitExponent : List Char → List Char × List Char
  | [] => ([], [])
  | mark :: rest =>
    let (sign, behind) := splitSign rest
    let digits := behind.takeWhile Char.isDigit
    if (mark == 'e' || mark == 'E') && !digits.isEmpty then
      (mark :: sign ++ digits, behind.dropWhile Char.isDigit)
    else ([], mark :: rest)

/-- The longest numeral at the head of a text, and what is behind it. -/
def split (text : List Char) : Numeral × List Char :=
  let whole := text.takeWhile Char.isDigit
  let (fraction, behindFraction) := splitFraction (text.dropWhile Char.isDigit)
  let (exponent, rest) := splitExponent behindFraction
  (⟨whole, fraction, exponent⟩, rest)

def text (numeral : Numeral) : List Char :=
  numeral.whole ++ numeral.fraction ++ numeral.exponent

def isWhole (numeral : Numeral) : Bool :=
  numeral.fraction.isEmpty && numeral.exponent.isEmpty

def exponentValue (numeral : Numeral) : Int :=
  match numeral.exponent.drop 1 with
  | '-' :: digits => -(Decimal.value digits : Int)
  | '+' :: digits => Decimal.value digits
  | digits => Decimal.value digits

def toBinary64 (numeral : Numeral) : Binary64 :=
  let places := numeral.fraction.drop 1
  Binary64.ofDecimal (numeral.whole ++ places) (numeral.exponentValue - places.length)

theorem splitFraction_append (text : List Char) :
    (splitFraction text).1 ++ (splitFraction text).2 = text := by
  unfold splitFraction
  split
  · split <;> simp
  · simp

theorem splitSign_append (text : List Char) : (splitSign text).1 ++ (splitSign text).2 = text := by
  unfold splitSign
  split <;> simp

theorem splitExponent_append (text : List Char) :
    (splitExponent text).1 ++ (splitExponent text).2 = text := by
  unfold splitExponent
  split
  · rfl
  · rename_i mark rest
    have signed := splitSign_append rest
    dsimp only
    split
    · simpa using signed
    · simp

/-- A numeral and what is behind it make up the text. -/
theorem split_append (text : List Char) : (split text).1.text ++ (split text).2 = text := by
  simp [split, Numeral.text, splitExponent_append, splitFraction_append]

end Numeral

end StagedAnalysis
