import ArgumentContract.Binary64.Basic
import ArgumentContract.Text.Decimal

/-!
# The shortest decimal form of a binary64 number

A decimal is read back as the number nearest to it.  Among the decimals that are read back as a
given number, the shortest form has the fewest digits; of several such decimals it is the one
nearest to the number, and of two equally near ones the one with the even last digit.

The decimals with `count` digits form a grid.  If any of its points reads back, one of the two
neighbours of the number on the grid does, so it is enough to try these two for one digit, two
digits and so on.  Seventeen digits always suffice.  Everything is compared in whole quarters of
the unit in the last place of the significand.
-/

namespace ArgumentContract.Binary64

/-- The decimal `significand * 10 ^ exponent`. -/
structure Decimal where
  significand : Nat
  exponent : Int
deriving DecidableEq, Repr

/-- The ratio `10 ^ ten / 2 ^ two` as numerator and denominator. -/
def powerRatio (ten two : Int) : Nat × Nat :=
  (Nat.pow 10 ten.toNat * Nat.pow 2 (-two).toNat,
    Nat.pow 10 (-ten).toNat * Nat.pow 2 two.toNat)

/-- The greatest power of ten that is at most a number other than zero. -/
def decimalMagnitude (x : Binary64) : Int :=
  let estimate := ((x.significand.log2 : Int) + x.exponent) * 30103 / 100000
  let reaches (power : Int) : Bool :=
    let (numerator, denominator) := powerRatio power x.exponent
    numerator ≤ x.significand * denominator
  if reaches (estimate + 1) then estimate + 1
  else if reaches estimate then estimate
  else estimate - 1

/-- Whether the decimal with the given significand on the grid `10 ^ unit` is read back as `x`:
it lies between the midpoints to the two neighbours of `x`, where the midpoints themselves belong
to `x` if its significand is even. -/
def readsBack (x : Binary64) (unit : Int) (significand : Nat) : Bool :=
  let (numerator, denominator) := powerRatio unit (x.exponent - 2)
  let gapBelow := if x.significand = leastNormal ∧ -1074 < x.exponent then 1 else 2
  let point := significand * numerator
  let least := (4 * x.significand - gapBelow) * denominator
  let greatest := (4 * x.significand + 2) * denominator
  if x.significand % 2 = 0 then least ≤ point && point ≤ greatest
  else least < point && point < greatest

/-- The decimal on the grid `10 ^ unit` that is read back as `x` and nearest to it, if there is
one. -/
def nearestOnGrid? (x : Binary64) (unit : Int) : Option Decimal :=
  let (numerator, denominator) := powerRatio unit x.exponent
  let exact := x.significand * denominator
  let below := exact / numerator
  let rest := exact % numerator
  let upper := 2 * rest > numerator ∨ (2 * rest = numerator ∧ below % 2 = 1)
  match readsBack x unit below, readsBack x unit (below + 1) with
  | true, true => some ⟨if upper then below + 1 else below, unit⟩
  | true, false => some ⟨below, unit⟩
  | false, true => some ⟨below + 1, unit⟩
  | false, false => none

/-- Drops the zeros at the end of a decimal significand with at most `count` digits. -/
def dropZeros : Nat → Decimal → Decimal
  | 0, d => d
  | count + 1, d =>
      if d.significand % 10 = 0 then
        dropZeros count ⟨d.significand / 10, d.exponent + 1⟩
      else d

/-- The shortest decimal that is read back as the magnitude of a number other than zero. -/
def shortest (x : Binary64) : Decimal :=
  let magnitude := decimalMagnitude x
  let found := (List.range 17).findSome? fun (count : Nat) =>
    nearestOnGrid? x (magnitude - count)
  dropZeros 17 (found.getD ⟨0, 0⟩)

end ArgumentContract.Binary64
