import ArgumentContract.Binary64.Scaling
import ArgumentContract.Proofs.Binary64.Nearest

/-!
# Where scaling goes wrong, and where it does not

A product and a quotient are the numbers nearest to those of the values.  Dividing by a power of
ten never leaves the format, so that scaling fails for positive powers only.  A whole number of at
most 53 bits and a power of ten up to the twenty-second are numbers of the format; scaling the one
by the other rounds once, and the result is the number nearest to the scaled one.
-/

namespace ArgumentContract.Binary64

/-! ## Signs -/

theorem ofParts?_true (significand : Nat) (exponent : Int) :
    ofParts? true significand exponent = (ofParts? false significand exponent).map opposite := by
  unfold ofParts?
  split <;> rfl

theorem ofRatio?_true (numerator denominator : Nat) :
    ofRatio? true numerator denominator =
      (ofRatio? false numerator denominator).map opposite := by
  simp only [ofRatio?, ofParts?_true]
  split <;> rfl

/-- The nearest number to the other side of zero is the opposite one. -/
theorem ofDecimal?_true (significand : Nat) (power : Int) :
    ofDecimal? true significand power = (ofDecimal? false significand power).map opposite := by
  simp only [ofDecimal?, ofRatio?_true]
  split
  · rfl
  · split
    · rfl
    · split <;> rfl

/-! ## Products and quotients -/

theorem rounded?_of_pos {above below : Nat} (habove : 0 < above) (negative : Bool) :
    rounded? negative (above, below) = ofRatio? negative above below := by
  obtain ⟨n, rfl⟩ := Nat.exists_eq_add_one_of_ne_zero habove.ne'
  rfl

theorem rounded?_congr
    {ratio ratio' : Nat × Nat} (hpos : 0 < ratio.2) (hpos' : 0 < ratio'.2)
    (hratio : (ratio.1 : ℚ) / ratio.2 = (ratio'.1 : ℚ) / ratio'.2) (negative : Bool) :
    rounded? negative ratio = rounded? negative ratio' := by
  obtain ⟨above, below⟩ := ratio
  obtain ⟨above', below'⟩ := ratio'
  dsimp only at hpos hpos' hratio
  have hbelow : (below : ℚ) ≠ 0 := by exact_mod_cast hpos.ne'
  have hbelow' : (below' : ℚ) ≠ 0 := by exact_mod_cast hpos'.ne'
  have hzero : above = 0 ↔ above' = 0 := by
    rw [← Nat.cast_eq_zero (R := ℚ), ← div_eq_zero_iff.trans (or_iff_left hbelow), hratio,
      div_eq_zero_iff, or_iff_left hbelow', Nat.cast_eq_zero]
  rcases Nat.eq_zero_or_pos above with rfl | habove
  · obtain rfl := hzero.mp rfl
    rfl
  · have habove' : 0 < above' := Nat.pos_of_ne_zero (mt hzero.mpr habove.ne')
    rw [rounded?_of_pos habove, rounded?_of_pos habove',
      ofRatio?_congr habove hpos habove' hpos' hratio]

/-- A ratio is rounded to the number whose value it is. -/
theorem rounded?_of_value
    {ratio : Nat × Nat} {x : Binary64} (hpos : 0 < ratio.2)
    (hratio : (ratio.1 : ℚ) / ratio.2 = x.value) : rounded? x.negative ratio = some x := by
  obtain ⟨above, below⟩ := ratio
  dsimp only at hpos hratio
  rcases Nat.eq_zero_or_pos x.significand with hzero | hx
  · have habove : above = 0 := by
      have hbelow : (below : ℚ) ≠ 0 := by exact_mod_cast hpos.ne'
      rw [value_eq_zero_iff.mpr hzero, div_eq_zero_iff, or_iff_left hbelow] at hratio
      exact_mod_cast hratio
    rw [habove, eq_zero_of_significand hzero]
    rfl
  · have habove : 0 < above := by
      rw [Nat.pos_iff_ne_zero]
      rintro rfl
      rw [Nat.cast_zero, zero_div] at hratio
      exact hx.ne' (value_eq_zero_iff.mp hratio.symm)
    rw [rounded?_of_pos habove, ofRatio?_of_value hx hpos hratio]

theorem product_ratio (x y : Binary64) :
    ((dividedByPower (x.significand * y.significand) 1 (-(x.exponent + y.exponent))).1 : ℚ) /
        (dividedByPower (x.significand * y.significand) 1 (-(x.exponent + y.exponent))).2 =
      x.value * y.value := by
  rw [dividedByPower_ratio, value, value, zpow_neg, zpow_add₀ two_ne_zero]
  push_cast
  field_simp

theorem quotient_ratio (x : Binary64) {y : Binary64} (hy : 0 < y.significand) :
    ((dividedByPower x.significand y.significand (y.exponent - x.exponent)).1 : ℚ) /
        (dividedByPower x.significand y.significand (y.exponent - x.exponent)).2 =
      x.value / y.value := by
  have hsignificand : (y.significand : ℚ) ≠ 0 := by exact_mod_cast hy.ne'
  rw [dividedByPower_ratio, value, value, zpow_sub₀ two_ne_zero]
  field_simp

theorem product?_eq_rounded?
    {x y : Binary64} {above below : Nat} (hbelow : 0 < below)
    (hratio : x.value * y.value = (above : ℚ) / below) :
    x.product? y = rounded? (x.negative ^^ y.negative) (above, below) :=
  rounded?_congr (dividedByPower_snd_pos one_pos ..) hbelow ((product_ratio x y).trans hratio) _

theorem quotient?_eq_rounded?
    {x y : Binary64} (hy : 0 < y.significand) {above below : Nat} (hbelow : 0 < below)
    (hratio : x.value / y.value = (above : ℚ) / below) :
    x.quotient? y = rounded? (x.negative ^^ y.negative) (above, below) :=
  rounded?_congr (dividedByPower_snd_pos hy ..) hbelow ((quotient_ratio x hy).trans hratio) _

/-! ## Exact numbers -/

/-- A whole number that is a significand times a power of two is not rounded. -/
theorem exists_rounded? {m : Nat} (hm : m < significandBound) {k : Nat} (hk : k ≤ 900) :
    ∃ x : Binary64, rounded? false (m * 2 ^ k, 1) = some x ∧ x.negative = false ∧
      x.value = m * 2 ^ k := by
  obtain ⟨x, hnegative, hvalue⟩ := exists_value hm hk
  refine ⟨x, ?_, hnegative, hvalue⟩
  rw [← hnegative]
  refine rounded?_of_value one_pos ?_
  rw [hvalue]
  push_cast
  exact div_one _

/-- The greatest power of ten that is a significand times a power of two. -/
def greatestExactPower : Nat := 22

/-- A decimal with a whole significand and a small power of ten, as a ratio. -/
def decimalRatio (significand : Nat) (power : Int) : Nat × Nat :=
  if 0 ≤ power then (significand * 10 ^ power.toNat, 1) else (significand, 10 ^ (-power).toNat)

variable {significand : Nat} {power : Int}

theorem ofDecimal?_eq_rounded?
    (hsignificand : significand < significandBound) (hpower : power.natAbs ≤ greatestExactPower)
    (negative : Bool) :
    ofDecimal? negative significand power =
      rounded? negative (decimalRatio significand power) := by
  have hlength : (Text.decimalDigits significand).length ≤ 16 := by
    rw [Text.decimalDigits, Nat.length_toDigits_le_iff (by decide) (by decide)]
    simp only [significandBound] at hsignificand
    omega
  have hne : 0 < (Text.decimalDigits significand).length :=
    List.length_pos_of_ne_nil (Text.decimalDigits_ne_nil significand)
  simp only [greatestExactPower] at hpower
  rw [ofDecimal?, decimalRatio]
  rcases Nat.eq_zero_or_pos significand with rfl | hpos
  · simp only [true_or, if_true, zero_mul]
    split <;> rfl
  · rw [if_neg (by omega), if_neg (by omega)]
    simp only [Nat.pow_eq]
    split
    next => rw [rounded?_of_pos (Nat.mul_pos hpos (by positivity))]
    next => rw [rounded?_of_pos hpos]

theorem exists_ofInt (hsignificand : significand < significandBound) :
    (ofInt significand).negative = false ∧ (ofInt significand).value = significand := by
  obtain ⟨x, hrounded, hnegative, hvalue⟩ := exists_rounded? hsignificand (k := 0) (by decide)
  have hx : ofInt significand = x := by
    have hsign : decide ((significand : Int) < 0) = false := by simp
    rw [ofInt, hsign, Int.natAbs_natCast, ofDecimal?_eq_rounded? hsignificand (by decide)]
    simpa [decimalRatio] using congrArg (Option.getD · (zero false)) hrounded
  rw [hx, hvalue]
  simpa using hnegative

theorem exists_powerOfTen? {n : Nat} (hn : n ≤ greatestExactPower) :
    ∃ factor, powerOfTen? n = some factor ∧ factor.negative = false ∧ factor.value = 10 ^ n := by
  have hfive : 5 ^ n < significandBound :=
    (Nat.pow_le_pow_right (by decide) hn).trans_lt (by decide)
  have hten : 5 ^ n * 2 ^ n = 10 ^ n := (Nat.mul_pow 5 2 n).symm
  obtain ⟨factor, hrounded, hnegative, hvalue⟩ :=
    exists_rounded? hfive (hn.trans (show greatestExactPower ≤ 900 by decide))
  refine ⟨factor, ?_, hnegative, ?_⟩
  · rw [powerOfTen?, ofDecimal?_eq_rounded? (by decide) (by simpa using hn), ← hrounded, hten]
    simp [decimalRatio]
  · rw [hvalue]
    exact_mod_cast hten

/-! ## Scaling -/

theorem scale?_of_powerOfTen?
    (x : Binary64) {factor : Binary64} (hpower : power.natAbs ≤ greatestPower)
    (hfactor : powerOfTen? power.natAbs = some factor) :
    scale? x power = if 0 ≤ power then x.product? factor else x.quotient? factor := by
  rw [scale?, if_pos hpower, hfactor, Option.bind_some]

theorem natAbs_le_greatestPower (hpower : power.natAbs ≤ greatestExactPower) :
    power.natAbs ≤ greatestPower :=
  hpower.trans (by decide)

/-- Multiplying by ten to the power of zero changes nothing. -/
theorem scale?_zero (x : Binary64) : scale? x 0 = some x := by
  obtain ⟨one, hpower, hnegative, hvalue⟩ :=
    exists_powerOfTen? (show (0 : Int).natAbs ≤ greatestExactPower from Nat.zero_le _)
  rw [scale?_of_powerOfTen? x (Nat.zero_le _) hpower, if_pos le_rfl, product?, hnegative,
    Bool.xor_false]
  refine rounded?_of_value (dividedByPower_snd_pos one_pos ..) ?_
  rw [product_ratio, hvalue, Int.natAbs_zero, pow_zero, mul_one]

/-- A small significand that is scaled by a small power is rounded once. -/
theorem scale?_eq_ofDecimal?
    (hsignificand : significand < significandBound)
    (hpower : power.natAbs ≤ greatestExactPower) :
    scale? (ofInt significand) power = ofDecimal? false significand power := by
  obtain ⟨hsign, hwhole⟩ := exists_ofInt hsignificand
  obtain ⟨factor, hfactor, hnegative, hvalue⟩ := exists_powerOfTen? hpower
  have hpos : 0 < factor.significand := by
    rw [← value_pos_iff, hvalue]
    positivity
  have hxor : ((ofInt significand).negative ^^ factor.negative) = false := by
    rw [hsign, hnegative, Bool.xor_false]
  rw [ofDecimal?_eq_rounded? hsignificand hpower,
    scale?_of_powerOfTen? _ (natAbs_le_greatestPower hpower) hfactor, decimalRatio]
  split
  next hmultiplied =>
    have habs : power.natAbs = power.toNat := by omega
    have hratio : (ofInt significand).value * factor.value =
        ((significand * 10 ^ power.toNat : Nat) : ℚ) / (1 : Nat) := by
      rw [hwhole, hvalue, habs]
      push_cast
      exact (div_one _).symm
    rw [product?_eq_rounded? one_pos hratio, hxor]
  next hdivided =>
    have habs : power.natAbs = (-power).toNat := by omega
    have hratio : (ofInt significand).value / factor.value =
        (significand : ℚ) / (10 ^ (-power).toNat : Nat) := by
      rw [hwhole, hvalue, habs]
      push_cast
      rfl
    rw [quotient?_eq_rounded? hpos (Nat.pow_pos (by decide)) hratio, hxor]

/-! ## Dividing -/

theorem exists_finite_power {n : Nat} (hn : n ≤ greatestPower) :
    ∃ factor, powerOfTen? n = some factor ∧ 1 ≤ factor.value := by
  let one : Binary64 := ⟨false, leastNormal, -52, by decide, by decide, by decide, .inl le_rfl⟩
  let greatest : Binary64 :=
    ⟨false, significandBound - 1, 971, by decide, by decide, by decide, .inl (by decide)⟩
  have hone : one.value = 1 := by norm_num [one, value]
  have hgreatest : ((10 ^ greatestPower : Nat) : ℚ) ≤ greatest.value := by
    rw [value_eq_units (show 0 ≤ greatest.exponent by decide), zpow_zero, mul_one, Nat.cast_le]
    decide +kernel
  have hlow : one.value ≤ ((10 ^ n : Nat) : ℚ) / (1 : Nat) := by
    rw [hone, Nat.cast_one, div_one]
    exact_mod_cast Nat.one_le_pow n 10 (by decide)
  have hhigh : ((10 ^ n : Nat) : ℚ) / (1 : Nat) ≤ greatest.value := by
    rw [Nat.cast_one, div_one]
    refine le_trans ?_ hgreatest
    exact Nat.cast_le.mpr (Nat.pow_le_pow_right (by decide) hn)
  obtain ⟨factor, hfactor, -, hle, -⟩ :=
    ofRatio?_bounds (Nat.pow_pos (by decide)) one_pos hlow hhigh false
  refine ⟨factor, ?_, hone ▸ hle⟩
  have hlength : (Text.decimalDigits 1).length = 1 := rfl
  simp only [greatestPower] at hn
  rw [powerOfTen?, ofDecimal?, hlength, if_neg (by omega), if_neg (by omega), if_pos (by omega),
    Int.toNat_natCast, Nat.pow_eq, one_mul]
  exact hfactor

/-- A quotient by a number from one on is finite. -/
theorem exists_quotient? (x : Binary64) {y : Binary64} (hy : 1 ≤ y.value) :
    ∃ z, x.quotient? y = some z := by
  have hpos : 0 < y.significand := value_pos_iff.mp (one_pos.trans_le hy)
  have hbelow := dividedByPower_snd_pos hpos x.significand (y.exponent - x.exponent)
  have hratio := quotient_ratio x hpos
  rw [quotient?]
  generalize dividedByPower x.significand y.significand (y.exponent - x.exponent) = ratio at *
  obtain ⟨above, below⟩ := ratio
  rcases Nat.eq_zero_or_pos above with rfl | habove
  · exact ⟨_, rfl⟩
  · have hle : (above : ℚ) / below ≤ x.value := by
      rw [hratio]
      exact div_le_self (by rw [value]; positivity) hy
    obtain ⟨z, hz, -⟩ := exists_ofRatio? habove hbelow hle (x.negative ^^ y.negative)
    exact ⟨z, by rw [rounded?_of_pos habove, hz]⟩

/-- Scaling down never leaves the format. -/
theorem exists_scale?_of_nonpos (x : Binary64) (hpower : power ≤ 0) :
    ∃ y, scale? x power = some y := by
  fun_induction scale? x power with
  | case1 x power hsmall =>
      obtain ⟨factor, hfactor, hone⟩ := exists_finite_power hsmall
      rw [hfactor, Option.bind_some]
      split
      next hnonneg =>
        obtain rfl : power = 0 := by omega
        have hscaled := scale?_zero x
        rw [scale?_of_powerOfTen? x hsmall hfactor, if_pos le_rfl] at hscaled
        exact ⟨x, hscaled⟩
      next => exact exists_quotient? x hone
  | case2 x power hlarge hzero => exact ⟨x, rfl⟩
  | case3 x power hlarge hzero hnonneg =>
      simp only [greatestPower] at hlarge
      omega
  | case4 x power hlarge hzero hneg ih =>
      obtain ⟨factor, hfactor, hone⟩ := exists_finite_power le_rfl
      obtain ⟨y, hy⟩ := exists_quotient? x hone
      rw [hfactor, Option.bind_some, hy, Option.bind_some]
      refine ih y ?_
      simp only [greatestPower] at hlarge ⊢
      omega

end ArgumentContract.Binary64
