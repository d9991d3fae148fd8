import ArgumentContract.Json.NumberLiteral
import ArgumentContract.Proofs.Binary64.Scaling

/-!
# Literals and the nearest numbers

The significand of a literal is its longest front that fits into 64 bits.  For an integer that is
the whole literal, which is converted to the nearest number.  So is every literal whose digits
make up a number of at most 53 bits and whose last digit stands at most twenty-two places away
from the point.  Longer literals may be converted to another number, or to none.
-/

namespace ArgumentContract

open Text (decimalValue)

/-! ## Significands -/

namespace Json

theorem le_ofDigitChars (digits : List Char) (significand : Nat) :
    significand ≤ Nat.ofDigitChars 10 digits significand := by
  induction digits generalizing significand with
  | nil => exact le_rfl
  | cons digit rest ih =>
      rw [Nat.ofDigitChars_cons]
      exact le_trans (by omega) (ih _)

/-- Digits are appended up to the first one that does not fit. -/
theorem exists_kept
    (digits : List Char) {significand : Nat} (hfits : significand ≤ greatestSignificand) :
    ∃ kept left, digits = kept ++ left ∧
      appendDigits significand digits = (Nat.ofDigitChars 10 kept significand, left.length) ∧
      Nat.ofDigitChars 10 kept significand ≤ greatestSignificand ∧
      ∀ c ∈ left.head?, greatestSignificand < Nat.ofDigitChars 10 (kept ++ [c]) significand := by
  induction digits generalizing significand with
  | nil => exact ⟨[], [], rfl, rfl, hfits, nofun⟩
  | cons digit rest ih =>
      rw [appendDigits]
      split
      next hlonger =>
        obtain ⟨kept, left, rfl, happend, hkept, hnext⟩ := ih hlonger
        refine ⟨digit :: kept, left, rfl, ?_, ?_, ?_⟩
        · rw [happend, Nat.ofDigitChars_cons]
        · rwa [Nat.ofDigitChars_cons]
        · simpa only [List.cons_append, Nat.ofDigitChars_cons] using hnext
      next hfull =>
        refine ⟨[], digit :: rest, rfl, rfl, hfits, ?_⟩
        simpa [Nat.ofDigitChars_cons] using hfull

theorem appendDigits_of_le
    {digits : List Char} {significand : Nat}
    (hfits : Nat.ofDigitChars 10 digits significand ≤ greatestSignificand) :
    appendDigits significand digits = (Nat.ofDigitChars 10 digits significand, 0) := by
  obtain ⟨kept, left, rfl, happend, -, hnext⟩ :=
    exists_kept digits ((le_ofDigitChars digits significand).trans hfits)
  cases left with
  | nil => simpa using happend
  | cons digit rest =>
      have hprefix := le_ofDigitChars rest (Nat.ofDigitChars 10 (kept ++ [digit]) significand)
      rw [← Nat.ofDigitChars_append, List.append_assoc, List.singleton_append] at hprefix
      exact absurd (hnext digit rfl) (by omega)

namespace NumberParts

variable {parts : NumberParts}

/-- The digits of a literal without its point. -/
def digits (parts : NumberParts) : List Char := parts.whole ++ parts.fraction.getD []

/-- The power of ten in the last place of a literal. -/
def lastPower (parts : NumberParts) : Int :=
  parts.exponent.getD 0 - (parts.fraction.getD []).length

theorem significand_of_le (hfits : decimalValue parts.digits ≤ greatestSignificand) :
    parts.significand =
      (decimalValue parts.digits, -((parts.fraction.getD []).length : Int)) := by
  rw [decimalValue, digits, Nat.ofDigitChars_append] at hfits ⊢
  have hwhole : Nat.ofDigitChars 10 parts.whole 0 ≤ greatestSignificand :=
    (le_ofDigitChars ..).trans hfits
  simp [significand, appendDigits_of_le hwhole, appendDigits_of_le hfits]

/-! ## Conversions -/

theorem magnitude?_of_le
    (hfits : decimalValue parts.digits ≤ greatestSignificand)
    (hexponent : (parts.exponent.getD 0).natAbs ≤ greatestExponent) :
    parts.magnitude? =
      Binary64.scale? (Binary64.ofInt (decimalValue parts.digits)) parts.lastPower := by
  rw [magnitude?, significand_of_le hfits]
  dsimp only
  rw [if_pos hexponent, lastPower, neg_add_eq_sub]

/-- A literal without a fraction and an exponent is converted to the nearest number. -/
theorem real?_of_integer
    (hfraction : parts.fraction = none) (hexponent : parts.exponent = none)
    (hfits : decimalValue parts.whole ≤ greatestSignificand) :
    parts.real? = some (if parts.negative then
      (Binary64.ofInt (decimalValue parts.whole)).opposite
      else Binary64.ofInt (decimalValue parts.whole)) := by
  have hdigits : parts.digits = parts.whole := by simp [digits, hfraction]
  have hpower : parts.lastPower = 0 := by simp [lastPower, hfraction, hexponent]
  rw [real?, magnitude?_of_le (hdigits ▸ hfits) (by simp [hexponent]), hdigits, hpower,
    Binary64.scale?_zero, Option.map_some]

/-- A literal that is not scaled up is in range. -/
theorem real?_ne_none_of_nonpos
    (hpower : parts.significand.2 + parts.exponent.getD 0 ≤ 0)
    (hexponent : parts.exponent.getD 0 ≤ greatestExponent) : parts.real? ≠ none := by
  rw [real?, Ne, Option.map_eq_none_iff, magnitude?]
  generalize parts.significand = scaled at hpower
  obtain ⟨significand, place⟩ := scaled
  dsimp only at hpower ⊢
  split
  next =>
    obtain ⟨y, hy⟩ := Binary64.exists_scale?_of_nonpos (Binary64.ofInt significand) hpower
    rw [hy]
    exact Option.some_ne_none y
  next hlarge =>
    rw [if_neg (by omega)]
    exact Option.some_ne_none _

/-- A short literal is converted to the nearest number. -/
theorem real?_of_short
    (hdigits : decimalValue parts.digits < Binary64.significandBound)
    (hpower : parts.lastPower.natAbs ≤ Binary64.greatestExactPower)
    (hexponent : (parts.exponent.getD 0).natAbs ≤ greatestExponent) :
    parts.real? =
      Binary64.ofDecimal? parts.negative (decimalValue parts.digits) parts.lastPower := by
  have hfits : decimalValue parts.digits ≤ greatestSignificand :=
    hdigits.le.trans (by decide)
  rw [real?, magnitude?_of_le hfits hexponent, Binary64.scale?_eq_ofDecimal? hdigits hpower]
  cases parts.negative with
  | false => simp
  | true => simp [Binary64.ofDecimal?_true]

-- One place more is too many: the literal `1e-23` is converted to a neighbour.
example : real? ⟨false, ['1'], none, some (-23)⟩ ≠ Binary64.ofDecimal? false 1 (-23) := by
  decide +kernel

-- The greatest number is the nearest one to `1.7976931348623158e308`, which is out of range.
example :
    real? ⟨false, ['1'], some "7976931348623158".toList, some 308⟩ = none ∧
      (Binary64.ofDecimal? false 17976931348623158 292).isSome = true := by
  decide +kernel

end NumberParts

end Json

end ArgumentContract
