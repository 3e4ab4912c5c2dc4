/-!
Decimal numbers and the 64-bit binary numbers nearest to them. A binary number is kept as its bit
pattern; a decimal number is a row of digits and a power of ten.

A finite positive pattern `b` stands for `s * 2 ^ q` where `b = (q + 1074) * 2 ^ 52 + s`, so
rounding only has to find `q` and `s`: a carry out of `s` moves the pattern to the next power of
two by itself.
-/
namespace StagedAnalysis

structure Binary64 where
  bits : UInt64
  deriving DecidableEq

namespace Decimal

def value (digits : List Char) : Nat :=
  digits.foldl (fun total digit => 10 * total + (digit.toNat - '0'.toNat)) 0

@[simp] theorem value_nil : value [] = 0 := rfl

theorem value_append (first second : List Char) :
    value (first ++ second) = value first * Nat.pow 10 second.length + value second := by
  have shift (total : Nat) : ∀ digits : List Char,
      digits.foldl (fun total digit => 10 * total + (digit.toNat - '0'.toNat)) total
        = total * Nat.pow 10 digits.length + value digits := by
    intro digits
    induction digits generalizing total with
    | nil => simp
    | cons digit digits ih =>
      have here := ih (10 * total + (digit.toNat - '0'.toNat))
      have there := ih (10 * 0 + (digit.toNat - '0'.toNat))
      simp only [value, List.foldl_cons, List.length_cons, Nat.pow_eq, Nat.pow_succ] at *
      rw [here, there]
      grind
  rw [value, List.foldl_append, shift]
  rfl

end Decimal

namespace Binary64

def infinity : Nat := 0x7FF0000000000000

/-- The quotient rounded to the nearest whole number, a half to the even neighbour. -/
def roundedQuotient (numerator denominator : Nat) : Nat :=
  let below := numerator / denominator
  let twice := 2 * (numerator % denominator)
  if denominator < twice ∨ (twice = denominator ∧ below % 2 = 1) then below + 1 else below

def logFloor (numerator denominator : Nat) : Int :=
  let guess : Int := (numerator.log2 : Int) - (denominator.log2 : Int)
  let reached : Bool :=
    if 0 ≤ guess then denominator * Nat.pow 2 guess.toNat ≤ numerator
    else denominator ≤ numerator * Nat.pow 2 (-guess).toNat
  if reached then guess else guess - 1

def patternOfFraction (numerator denominator : Nat) : Nat :=
  let exponent : Int := max (logFloor numerator denominator - 52) (-1074)
  let significand :=
    if 0 ≤ exponent then roundedQuotient numerator (denominator * Nat.pow 2 exponent.toNat)
    else roundedQuotient (numerator * Nat.pow 2 (-exponent).toNat) denominator
  min infinity ((exponent + 1074).toNat * Nat.pow 2 52 + significand)

/-- The number nearest to the row of digits times a power of ten. Beyond the range of the format the
answer is zero or infinity without computing the power. -/
def ofDecimal (digits : List Char) (exponent : Int) : Binary64 :=
  let significant := digits.dropWhile (· = '0')
  let number := Decimal.value significant
  let magnitude : Int := significant.length + exponent
  let pattern :=
    if number = 0 then 0
    else if 310 < magnitude then infinity
    else if magnitude < -330 then 0
    else if 0 ≤ exponent then patternOfFraction (number * Nat.pow 10 exponent.toNat) 1
    else patternOfFraction number (Nat.pow 10 (-exponent).toNat)
  ⟨pattern.toUInt64⟩

example : ofDecimal ['2', '5'] (-1) = ⟨0x4004000000000000⟩ := by decide +kernel

example : ofDecimal ['5'] (-324) = ⟨1⟩ := by decide +kernel

example : ofDecimal ['1'] 309 = ⟨0x7FF0000000000000⟩ := by decide +kernel

end Binary64

end StagedAnalysis
