import ArgumentContract.Binary64.Basic
import ArgumentContract.Text.Decimal

/-!
# The nearest binary64 number

A decimal number is turned into the binary64 number nearest to it, and into the one with an even
significand if it lies halfway between two.  All arithmetic is exact.  Numbers beyond the largest
finite one have no nearest number; numbers close to zero become zero.  Both are recognised from
the count of digits before any large power is formed.
-/

namespace ArgumentContract.Binary64

/-- The quotient of two numbers, rounded to the nearest integer and halves to the even one. -/
def roundedQuotient (numerator denominator : Nat) : Nat :=
  let quotient := numerator / denominator
  let rest := numerator % denominator
  if 2 * rest > denominator ∨ (2 * rest = denominator ∧ quotient % 2 = 1) then
    quotient + 1
  else quotient

/-- Numerator and denominator of a ratio divided by a power of two. -/
def dividedByPower (numerator denominator : Nat) (exponent : Int) : Nat × Nat :=
  if 0 ≤ exponent then (numerator, denominator * Nat.pow 2 exponent.toNat)
  else (numerator * Nat.pow 2 (-exponent).toNat, denominator)

/-- The greatest power of two that is at most a positive ratio. -/
def binaryMagnitude (numerator denominator : Nat) : Int :=
  let estimate : Int := (numerator.log2 : Int) - denominator.log2
  let (above, below) := dividedByPower numerator denominator estimate
  if above < below then estimate - 1 else estimate

/-- The binary64 number nearest to a positive ratio, if it is finite. -/
def ofRatio? (negative : Bool) (numerator denominator : Nat) : Option Binary64 :=
  let exponent := max (binaryMagnitude numerator denominator - 52) (-1074)
  let (above, below) := dividedByPower numerator denominator exponent
  let significand := roundedQuotient above below
  if significand = significandBound then
    ofParts? negative leastNormal (exponent + 1)
  else ofParts? negative significand exponent

/-- The binary64 number nearest to `significand * 10 ^ exponent`, if it is finite. -/
def ofDecimal? (negative : Bool) (significand : Nat) (exponent : Int) : Option Binary64 :=
  let magnitude := (Text.decimalDigits significand).length + exponent
  if significand = 0 ∨ magnitude < -330 then some (zero negative)
  else if magnitude > 310 then none
  else if 0 ≤ exponent then
    ofRatio? negative (significand * Nat.pow 10 exponent.toNat) 1
  else ofRatio? negative significand (Nat.pow 10 (-exponent).toNat)

/-- The binary64 number nearest to an integer; zero for one without a finite neighbour. -/
def ofInt (n : Int) : Binary64 :=
  (ofDecimal? (n < 0) n.natAbs 0).getD (zero false)

end ArgumentContract.Binary64
