/-!
# Finite binary64 numbers

A finite number of the 64-bit binary format is a sign, a significand and a power of two.  Each
number other than zero has one canonical form: the significand fills 53 bits unless the exponent
is already the least one.  Zero keeps its sign.
-/

namespace ArgumentContract

/-- The power of two beyond all significands. -/
abbrev Binary64.significandBound : Nat := 0x20000000000000

/-- The least significand that fills all its bits. -/
abbrev Binary64.leastNormal : Nat := 0x10000000000000

/-- A finite binary64 number: `significand * 2 ^ exponent` with a sign. -/
structure Binary64 where
  negative : Bool
  significand : Nat
  exponent : Int
  significand_lt : significand < Binary64.significandBound
  le_exponent : -1074 ≤ exponent
  exponent_le : exponent ≤ 971
  normal : Binary64.leastNormal ≤ significand ∨ exponent = -1074
deriving DecidableEq

namespace Binary64

def zero (negative : Bool) : Binary64 where
  negative
  significand := 0
  exponent := -1074
  significand_lt := by decide
  le_exponent := by decide
  exponent_le := by decide
  normal := .inr rfl

/-- The number with the given parts, if they are a canonical form. -/
def ofParts? (negative : Bool) (significand : Nat) (exponent : Int) : Option Binary64 :=
  if h : (significand < significandBound ∧ -1074 ≤ exponent) ∧
      exponent ≤ 971 ∧ (leastNormal ≤ significand ∨ exponent = -1074) then
    some ⟨negative, significand, exponent, h.1.1, h.1.2, h.2.1, h.2.2⟩
  else none

end Binary64

end ArgumentContract
