import ArgumentContract.Binary64.Nearest

/-!
# Scaling by powers of ten

A product and a quotient are formed exactly and then rounded to the nearest number.  Scaling a
number by a power of ten multiplies or divides it by the nearest number to that power, so that the
power, the operation and, for a large divisor, every step is rounded on its own.  What comes out
need not be the number nearest to the scaled one.
-/

namespace ArgumentContract.Binary64

/-- The number with the other sign. -/
def opposite (x : Binary64) : Binary64 := { x with negative := !x.negative }

/-- The number nearest to a ratio, if it is finite; a ratio of zero keeps its sign. -/
def rounded? (negative : Bool) : Nat × Nat → Option Binary64
  | (0, _) => some (zero negative)
  | (numerator, denominator) => ofRatio? negative numerator denominator

/-- The rounded product of two numbers, if it is finite. -/
def product? (x y : Binary64) : Option Binary64 :=
  rounded? (x.negative ^^ y.negative)
    (dividedByPower (x.significand * y.significand) 1 (-(x.exponent + y.exponent)))

/-- The rounded quotient of a number by one other than zero, if it is finite. -/
def quotient? (x y : Binary64) : Option Binary64 :=
  rounded? (x.negative ^^ y.negative)
    (dividedByPower x.significand y.significand (y.exponent - x.exponent))

/-- The greatest power of ten that is finite. -/
def greatestPower : Nat := 308

/-- The number nearest to a power of ten, if it is finite. -/
def powerOfTen? (power : Nat) : Option Binary64 := ofDecimal? false 1 power

/-- A number times a power of ten, if every step towards it is finite.  A power that is too large
to divide by is divided by in several steps, but never multiplied by. -/
def scale? (x : Binary64) (power : Int) : Option Binary64 :=
  if power.natAbs ≤ greatestPower then
    (powerOfTen? power.natAbs).bind fun factor =>
      if 0 ≤ power then x.product? factor else x.quotient? factor
  else if x.significand = 0 then some x
  else if 0 ≤ power then none
  else
    (powerOfTen? greatestPower).bind fun factor =>
      (x.quotient? factor).bind fun y => scale? y (power + greatestPower)
termination_by power.natAbs
decreasing_by
  simp only [greatestPower] at *
  omega

end ArgumentContract.Binary64
