import ArgumentContract.Binary64.Nearest
import Mathlib.Data.Int.Log
import Mathlib.Tactic

/-!
# The nearest number of a ratio

The nearest number depends on a ratio alone and not on the numerator and denominator that it is
given by.  It lies between any two numbers that the ratio lies between, so that a ratio up to some
finite number has a nearest one, and a number of the format is the nearest one to its own value.
-/

namespace ArgumentContract.Binary64

/-! ## Quotients -/

theorem roundedQuotient_mul_right {factor : Nat} (hfactor : 0 < factor)
    (numerator denominator : Nat) :
    roundedQuotient (numerator * factor) (denominator * factor) =
      roundedQuotient numerator denominator := by
  have hrest : numerator * factor % (denominator * factor) =
      numerator % denominator * factor := Nat.mul_mod_mul_right ..
  have habove : 2 * (numerator % denominator * factor) > denominator * factor ↔
      2 * (numerator % denominator) > denominator := by
    rw [← mul_assoc, gt_iff_lt, Nat.mul_lt_mul_right hfactor]
  have hhalf : 2 * (numerator % denominator * factor) = denominator * factor ↔
      2 * (numerator % denominator) = denominator := by
    rw [← mul_assoc, Nat.mul_left_inj hfactor.ne']
  simp only [roundedQuotient, Nat.mul_div_mul_right _ _ hfactor, hrest, habove, hhalf]

theorem roundedQuotient_congr
    {above below above' below' : Nat} (hbelow : 0 < below) (hbelow' : 0 < below')
    (hratio : (above : ℚ) / below = (above' : ℚ) / below') :
    roundedQuotient above below = roundedQuotient above' below' := by
  have hcross : above * below' = above' * below := by
    have hpos : (below : ℚ) ≠ 0 := by exact_mod_cast hbelow.ne'
    have hpos' : (below' : ℚ) ≠ 0 := by exact_mod_cast hbelow'.ne'
    rw [div_eq_div_iff hpos hpos'] at hratio
    exact_mod_cast hratio
  rw [← roundedQuotient_mul_right hbelow' above below, hcross, Nat.mul_comm below below',
    roundedQuotient_mul_right hbelow]

theorem roundedQuotient_le
    {above below bound : Nat} (hbelow : 0 < below) (hbound : (above : ℚ) / below ≤ bound) :
    roundedQuotient above below ≤ bound := by
  have hle : above ≤ below * bound := by
    rw [div_le_iff₀ (by exact_mod_cast hbelow), mul_comm] at hbound
    exact_mod_cast hbound
  have hquotient : above / below ≤ bound := Nat.div_le_of_le_mul hle
  rcases hquotient.lt_or_eq with hlt | heq
  · unfold roundedQuotient
    dsimp only
    split <;> omega
  · -- Nothing is left over at the bound, so that the quotient is not rounded up.
    have hsplit := Nat.div_add_mod above below
    rw [heq] at hsplit
    have hrest : above % below = 0 := by omega
    simp [roundedQuotient, hrest, heq, hbelow.ne]

theorem le_roundedQuotient
    {above below bound : Nat} (hbelow : 0 < below) (hbound : (bound : ℚ) ≤ above / below) :
    bound ≤ roundedQuotient above below := by
  have hle : bound ≤ above / below := by
    rw [le_div_iff₀ (by exact_mod_cast hbelow)] at hbound
    rw [Nat.le_div_iff_mul_le hbelow]
    exact_mod_cast hbound
  unfold roundedQuotient
  dsimp only
  split <;> omega

theorem dividedByPower_snd_pos
    {denominator : Nat} (hdenominator : 0 < denominator) (numerator : Nat) (exponent : Int) :
    0 < (dividedByPower numerator denominator exponent).2 := by
  unfold dividedByPower
  split
  · exact Nat.mul_pos hdenominator (Nat.pow_pos two_pos)
  · exact hdenominator

theorem dividedByPower_ratio (numerator denominator : Nat) (exponent : Int) :
    ((dividedByPower numerator denominator exponent).1 : ℚ) /
        (dividedByPower numerator denominator exponent).2 =
      (numerator : ℚ) / denominator / 2 ^ exponent := by
  unfold dividedByPower
  split
  next hexponent =>
    obtain ⟨power, rfl⟩ := Int.eq_ofNat_of_zero_le hexponent
    simp [Nat.pow_eq, div_div]
  next hexponent =>
    obtain ⟨power, hpower⟩ := Int.eq_ofNat_of_zero_le (show 0 ≤ -exponent by omega)
    obtain rfl : exponent = -power := by omega
    simp [Nat.pow_eq, mul_div_right_comm]

/-! ## Binary magnitudes -/

theorem zpow_log2_le {n : Nat} (hn : 0 < n) : (2 : ℚ) ^ (n.log2 : Int) ≤ n := by
  rw [zpow_natCast]
  exact_mod_cast Nat.log2_self_le hn.ne'

theorem lt_zpow_log2_succ (n : Nat) : (n : ℚ) < 2 ^ ((n.log2 : Int) + 1) := by
  have hlt : n < 2 ^ (n.log2 + 1) := Nat.lt_log2_self
  exact_mod_cast hlt

theorem log_eq_iff {ratio : ℚ} (hratio : 0 < ratio) {magnitude : Int} :
    Int.log 2 ratio = magnitude ↔ (2 : ℚ) ^ magnitude ≤ ratio ∧ ratio < 2 ^ (magnitude + 1) := by
  have hlow := Int.zpow_le_iff_le_log one_lt_two hratio (x := magnitude)
  have hhigh := Int.lt_zpow_iff_log_lt one_lt_two hratio (x := magnitude + 1)
  rw [Nat.cast_ofNat] at hlow hhigh
  rw [hlow, hhigh]
  omega

variable {numerator denominator : Nat}

theorem binaryMagnitude_eq_log (hnumerator : 0 < numerator) (hdenominator : 0 < denominator) :
    binaryMagnitude numerator denominator = Int.log 2 ((numerator : ℚ) / denominator) := by
  have hnumerator' : (0 : ℚ) < numerator := by exact_mod_cast hnumerator
  have hdenominator' : (0 : ℚ) < denominator := by exact_mod_cast hdenominator
  have hratio : (0 : ℚ) < (numerator : ℚ) / denominator := div_pos hnumerator' hdenominator'
  -- The logarithms bound the ratio up to a factor of two on either side of the estimate.
  have hlow : (2 : ℚ) ^ ((numerator.log2 : Int) - denominator.log2 - 1) <
      (numerator : ℚ) / denominator := by
    rw [lt_div_iff₀ hdenominator']
    calc (2 : ℚ) ^ ((numerator.log2 : Int) - denominator.log2 - 1) * denominator
        < 2 ^ ((numerator.log2 : Int) - denominator.log2 - 1) *
            2 ^ ((denominator.log2 : Int) + 1) := by
          gcongr
          exact lt_zpow_log2_succ denominator
      _ = 2 ^ (numerator.log2 : Int) := by
          rw [← zpow_add₀ two_ne_zero]
          congr 1
          ring
      _ ≤ numerator := zpow_log2_le hnumerator
  have hhigh : (numerator : ℚ) / denominator <
      2 ^ ((numerator.log2 : Int) - denominator.log2 + 1) := by
    rw [div_lt_iff₀ hdenominator']
    calc (numerator : ℚ) < 2 ^ ((numerator.log2 : Int) + 1) := lt_zpow_log2_succ numerator
      _ = 2 ^ ((numerator.log2 : Int) - denominator.log2 + 1) * 2 ^ (denominator.log2 : Int) := by
          rw [← zpow_add₀ two_ne_zero]
          congr 1
          ring
      _ ≤ 2 ^ ((numerator.log2 : Int) - denominator.log2 + 1) * denominator := by
          gcongr
          exact zpow_log2_le hdenominator
  set estimate : Int := (numerator.log2 : Int) - denominator.log2 with hestimate
  have hquotient := dividedByPower_ratio numerator denominator estimate
  have hbelow := dividedByPower_snd_pos hdenominator numerator estimate
  rw [binaryMagnitude, ← hestimate]
  generalize dividedByPower numerator denominator estimate = quotient at hquotient hbelow ⊢
  obtain ⟨above, below⟩ := quotient
  dsimp only at hquotient hbelow ⊢
  have hbelow' : (0 : ℚ) < below := by exact_mod_cast hbelow
  have hpower : (0 : ℚ) < 2 ^ estimate := by positivity
  have hless : above < below ↔ (numerator : ℚ) / denominator < 2 ^ estimate := by
    rw [← div_lt_one hpower, ← hquotient, div_lt_one hbelow', Nat.cast_lt]
  symm
  rw [log_eq_iff hratio]
  split
  next hsmall =>
    rw [sub_add_cancel]
    exact ⟨hlow.le, hless.mp hsmall⟩
  next hlarge =>
    exact ⟨not_lt.mp (mt hless.mpr hlarge), hhigh⟩

/-! ## Values -/

/-- The magnitude of a number. -/
def value (x : Binary64) : ℚ := x.significand * 2 ^ x.exponent

theorem value_pos_iff {x : Binary64} : 0 < x.value ↔ 0 < x.significand := by
  have hpower : (0 : ℚ) < 2 ^ x.exponent := by positivity
  rw [value, mul_pos_iff_of_pos_right hpower, Nat.cast_pos]

theorem value_eq_zero_iff {x : Binary64} : x.value = 0 ↔ x.significand = 0 := by
  have hpower : (2 : ℚ) ^ x.exponent ≠ 0 := by positivity
  rw [value, mul_eq_zero, or_iff_left hpower, Nat.cast_eq_zero]

theorem value_lt (x : Binary64) : x.value < 2 ^ (x.exponent + 53) := by
  have hlt : (x.significand : ℚ) < 2 ^ (53 : Int) := by exact_mod_cast x.significand_lt
  rw [value, add_comm, zpow_add₀ two_ne_zero]
  exact mul_lt_mul_of_pos_right hlt (by positivity)

theorem le_value_of_normal {x : Binary64} (hnormal : leastNormal ≤ x.significand) :
    2 ^ (x.exponent + 52) ≤ x.value := by
  have hle : (2 : ℚ) ^ (52 : Int) ≤ x.significand := by exact_mod_cast hnormal
  rw [value, add_comm, zpow_add₀ two_ne_zero]
  exact mul_le_mul_of_nonneg_right hle (by positivity)

theorem eq_zero_of_significand {x : Binary64} (hzero : x.significand = 0) :
    x = zero x.negative := by
  obtain ⟨negative, significand, exponent, hlt, hle, hgreatest, hnormal⟩ := x
  obtain rfl : significand = 0 := hzero
  obtain rfl : exponent = -1074 := hnormal.resolve_left (by decide)
  rfl

/-- The value of a number in units of a place that is not above its last one. -/
theorem value_eq_units {x : Binary64} {place : Int} (hplace : place ≤ x.exponent) :
    x.value = (x.significand * 2 ^ (x.exponent - place).toNat : Nat) * 2 ^ place := by
  obtain ⟨shift, hshift⟩ := Int.eq_ofNat_of_zero_le (Int.sub_nonneg.mpr hplace)
  have hexponent : x.exponent = shift + place := by omega
  rw [hshift, Int.toNat_natCast, value, hexponent, zpow_add₀ two_ne_zero, zpow_natCast]
  push_cast
  ring

/-- A significand times a power of two is a number of the format. -/
theorem exists_value {m : Nat} (hm : m < significandBound) {k : Nat} (hk : k ≤ 900) :
    ∃ x : Binary64, x.negative = false ∧ x.value = m * 2 ^ k := by
  rcases Nat.eq_zero_or_pos m with rfl | hpos
  · exact ⟨zero false, rfl, by simp [value, zero]⟩
  have hlog : m.log2 ≤ 52 := by
    have hlt := (Nat.log2_lt hpos.ne').mpr (show m < 2 ^ 53 from hm)
    omega
  have hpower : 2 ^ m.log2 * 2 ^ (52 - m.log2) = leastNormal := by
    rw [← pow_add, Nat.add_sub_cancel' hlog]
    rfl
  have hlow := Nat.mul_le_mul_right (2 ^ (52 - m.log2)) (Nat.log2_self_le hpos.ne')
  have hhigh := Nat.mul_lt_mul_of_pos_right (Nat.lt_log2_self (n := m))
    (show 0 < 2 ^ (52 - m.log2) by positivity)
  rw [hpower] at hlow
  rw [pow_succ, mul_right_comm, hpower] at hhigh
  refine ⟨⟨false, m * 2 ^ (52 - m.log2), (k : Int) - (52 - m.log2 : Nat), hhigh, by omega,
    by omega, .inl hlow⟩, rfl, ?_⟩
  rw [value, zpow_sub₀ two_ne_zero, zpow_natCast, zpow_natCast]
  push_cast
  field_simp

/-! ## Last places -/

/-- The power of two in the last place of a significand for a ratio. -/
def lastPlace (ratio : ℚ) : Int := max (Int.log 2 ratio - 52) (-1074)

theorem lastPlace_mono {low high : ℚ} (hlow : 0 < low) (hle : low ≤ high) :
    lastPlace low ≤ lastPlace high :=
  max_le_max (Int.sub_le_sub_right (Int.log_mono_right hlow hle) 52) le_rfl

theorem lt_of_lastPlace (ratio : ℚ) : ratio < 2 ^ (lastPlace ratio + 53) := by
  have hlog := Int.lt_zpow_succ_log_self one_lt_two ratio
  rw [Nat.cast_ofNat] at hlog
  refine hlog.trans_le (zpow_le_zpow_right₀ one_le_two ?_)
  rw [lastPlace]
  omega

theorem le_of_lastPlace {ratio : ℚ} (hratio : 0 < ratio) (hplace : lastPlace ratio ≠ -1074) :
    2 ^ (lastPlace ratio + 52) ≤ ratio := by
  have hlog := Int.zpow_log_le_self one_lt_two hratio
  rw [Nat.cast_ofNat] at hlog
  have hplace : lastPlace ratio + 52 = Int.log 2 ratio := by
    rw [lastPlace] at hplace ⊢
    omega
  rwa [hplace]

/-- The last place of a number is told by its value. -/
theorem lastPlace_value {x : Binary64} (hpos : 0 < x.significand) :
    lastPlace x.value = x.exponent := by
  have hvalue : 0 < x.value := value_pos_iff.mpr hpos
  have hlog : Int.log 2 x.value < x.exponent + 53 := by
    refine (Int.lt_zpow_iff_log_lt one_lt_two hvalue).mp ?_
    exact_mod_cast x.value_lt
  have hleast := x.le_exponent
  rw [lastPlace]
  rcases x.normal with hnormal | hsubnormal
  · have hge : x.exponent + 52 ≤ Int.log 2 x.value := by
      refine (Int.zpow_le_iff_le_log one_lt_two hvalue).mp ?_
      exact_mod_cast le_value_of_normal hnormal
    omega
  · omega

theorem eq_of_value
    {x y : Binary64} (hpos : 0 < x.significand) (hsign : x.negative = y.negative)
    (hvalue : x.value = y.value) : x = y := by
  have hpos' : 0 < y.significand := by
    rw [← value_pos_iff, ← hvalue, value_pos_iff]
    exact hpos
  have hexponent : x.exponent = y.exponent := by
    rw [← lastPlace_value hpos, ← lastPlace_value hpos', hvalue]
  have hsignificand : x.significand = y.significand := by
    have hpower : (2 : ℚ) ^ y.exponent ≠ 0 := by positivity
    rw [value, value, hexponent, mul_left_inj' hpower] at hvalue
    exact_mod_cast hvalue
  cases x
  cases y
  simp_all

/-! ## Nearest numbers -/

/-- The significand of a ratio, rounded in the given place. -/
def roundedAt (numerator denominator : Nat) (place : Int) : Nat :=
  roundedQuotient (dividedByPower numerator denominator place).1
    (dividedByPower numerator denominator place).2

theorem roundedAt_le
    (hdenominator : 0 < denominator) {bound : Nat} {place : Int}
    (hbound : (numerator : ℚ) / denominator ≤ bound * 2 ^ place) :
    roundedAt numerator denominator place ≤ bound := by
  refine roundedQuotient_le (dividedByPower_snd_pos hdenominator ..) ?_
  rw [dividedByPower_ratio, div_le_iff₀ (by positivity)]
  exact hbound

theorem le_roundedAt
    (hdenominator : 0 < denominator) {bound : Nat} {place : Int}
    (hbound : bound * 2 ^ place ≤ (numerator : ℚ) / denominator) :
    bound ≤ roundedAt numerator denominator place := by
  refine le_roundedQuotient (dividedByPower_snd_pos hdenominator ..) ?_
  rw [dividedByPower_ratio, le_div_iff₀ (by positivity)]
  exact hbound

theorem ratio_pos (hnumerator : 0 < numerator) (hdenominator : 0 < denominator) :
    (0 : ℚ) < (numerator : ℚ) / denominator :=
  div_pos (by exact_mod_cast hnumerator) (by exact_mod_cast hdenominator)

theorem ofRatio?_eq
    (hnumerator : 0 < numerator) (hdenominator : 0 < denominator) (negative : Bool) {place : Int}
    (hplace : lastPlace ((numerator : ℚ) / denominator) = place) :
    ofRatio? negative numerator denominator =
      if roundedAt numerator denominator place = significandBound then
        ofParts? negative leastNormal (place + 1)
      else ofParts? negative (roundedAt numerator denominator place) place := by
  rw [← hplace, ofRatio?, binaryMagnitude_eq_log hnumerator hdenominator]
  rfl

/-- The nearest number is told by the ratio. -/
theorem ofRatio?_congr
    {numerator' denominator' : Nat} (hnumerator : 0 < numerator) (hdenominator : 0 < denominator)
    (hnumerator' : 0 < numerator') (hdenominator' : 0 < denominator')
    (hratio : (numerator : ℚ) / denominator = (numerator' : ℚ) / denominator') (negative : Bool) :
    ofRatio? negative numerator denominator = ofRatio? negative numerator' denominator' := by
  have hrounded (place : Int) :
      roundedAt numerator denominator place = roundedAt numerator' denominator' place := by
    refine roundedQuotient_congr (dividedByPower_snd_pos hdenominator ..)
      (dividedByPower_snd_pos hdenominator' ..) ?_
    rw [dividedByPower_ratio, dividedByPower_ratio, hratio]
  rw [ofRatio?_eq hnumerator hdenominator negative rfl,
    ofRatio?_eq hnumerator' hdenominator' negative rfl, hratio, hrounded]

theorem ofParts?_eq_some (x : Binary64) :
    ofParts? x.negative x.significand x.exponent = some x := by
  rw [ofParts?, dif_pos ⟨⟨x.significand_lt, x.le_exponent⟩, x.exponent_le, x.normal⟩]

theorem leastNormal_le_roundedAt
    (hnumerator : 0 < numerator) (hdenominator : 0 < denominator)
    (hplace : lastPlace ((numerator : ℚ) / denominator) ≠ -1074) :
    leastNormal ≤
      roundedAt numerator denominator (lastPlace ((numerator : ℚ) / denominator)) := by
  refine le_roundedAt hdenominator ?_
  have hle := le_of_lastPlace (ratio_pos hnumerator hdenominator) hplace
  rw [add_comm, zpow_add₀ two_ne_zero] at hle
  exact_mod_cast hle

/-- A ratio up to a finite number has a nearest one. -/
theorem exists_ofRatio?
    (hnumerator : 0 < numerator) (hdenominator : 0 < denominator) {y : Binary64}
    (hy : (numerator : ℚ) / denominator ≤ y.value) (negative : Bool) :
    ∃ z, ofRatio? negative numerator denominator = some z ∧ z.negative = negative ∧
      z.value = roundedAt numerator denominator (lastPlace ((numerator : ℚ) / denominator)) *
        2 ^ lastPlace ((numerator : ℚ) / denominator) := by
  have hratio := ratio_pos hnumerator hdenominator
  have hpos : 0 < y.significand := value_pos_iff.mp (hratio.trans_le hy)
  have hmono := lastPlace_mono hratio hy
  have hnormal := leastNormal_le_roundedAt hnumerator hdenominator
  have hlt := lt_of_lastPlace ((numerator : ℚ) / denominator)
  have hleast : -1074 ≤ lastPlace ((numerator : ℚ) / denominator) := le_max_right _ _
  rw [lastPlace_value hpos] at hmono
  generalize hplace : lastPlace ((numerator : ℚ) / denominator) = place at *
  have hgreatest := y.exponent_le
  rw [ofRatio?_eq hnumerator hdenominator negative hplace]
  have hbound : roundedAt numerator denominator place ≤ significandBound := by
    refine roundedAt_le hdenominator ?_
    rw [add_comm, zpow_add₀ two_ne_zero] at hlt
    exact_mod_cast hlt.le
  split
  next hcarried =>
    -- The significand is carried into the next place only if there is one.
    have hnext : place < y.exponent := by
      refine lt_of_le_of_ne hmono fun hsame => ?_
      have hle : roundedAt numerator denominator place ≤ y.significand := by
        refine roundedAt_le hdenominator ?_
        rw [hsame]
        exact hy
      exact absurd (hle.trans_lt y.significand_lt) (by omega)
    let z : Binary64 :=
      ⟨negative, leastNormal, place + 1, by decide, by omega, by omega, .inl le_rfl⟩
    refine ⟨z, ofParts?_eq_some z, rfl, ?_⟩
    rw [value, hcarried, zpow_add_one₀ two_ne_zero]
    push_cast
    ring
  next hfilled =>
    let z : Binary64 :=
      ⟨negative, roundedAt numerator denominator place, place, by omega, hleast, by omega,
        or_iff_not_imp_right.mpr hnormal⟩
    exact ⟨z, ofParts?_eq_some z, rfl, rfl⟩

/-- The nearest number lies between any two numbers that the ratio lies between. -/
theorem ofRatio?_bounds
    (hnumerator : 0 < numerator) (hdenominator : 0 < denominator) {x y : Binary64}
    (hx : x.value ≤ (numerator : ℚ) / denominator) (hy : (numerator : ℚ) / denominator ≤ y.value)
    (negative : Bool) :
    ∃ z, ofRatio? negative numerator denominator = some z ∧ z.negative = negative ∧
      x.value ≤ z.value ∧ z.value ≤ y.value := by
  obtain ⟨z, hz, hsign, hvalue⟩ := exists_ofRatio? hnumerator hdenominator hy negative
  refine ⟨z, hz, hsign, ?_, ?_⟩
  · rcases le_or_gt (lastPlace ((numerator : ℚ) / denominator)) x.exponent with hle | hgt
    · rw [value_eq_units hle] at hx ⊢
      rw [hvalue]
      gcongr
      exact le_roundedAt hdenominator hx
    · -- The ratio has a higher last place than the number, and a significand that fills it.
      have hleast := x.le_exponent
      have hnormal := leastNormal_le_roundedAt hnumerator hdenominator (by omega)
      calc x.value ≤ 2 ^ (x.exponent + 53) := x.value_lt.le
        _ ≤ 2 ^ (lastPlace ((numerator : ℚ) / denominator) + 52) :=
            zpow_le_zpow_right₀ one_le_two (by omega)
        _ = leastNormal * 2 ^ lastPlace ((numerator : ℚ) / denominator) := by
            rw [add_comm, zpow_add₀ two_ne_zero]
            norm_num
        _ ≤ z.value := by
            rw [hvalue]
            gcongr
  · have hratio := ratio_pos hnumerator hdenominator
    have hpos : 0 < y.significand := value_pos_iff.mp (hratio.trans_le hy)
    have hle := lastPlace_mono hratio hy
    rw [lastPlace_value hpos] at hle
    rw [value_eq_units hle] at hy ⊢
    rw [hvalue]
    gcongr
    exact roundedAt_le hdenominator hy

/-- A number is the nearest one to its value. -/
theorem ofRatio?_of_value
    {x : Binary64} (hpos : 0 < x.significand) (hdenominator : 0 < denominator)
    (hratio : (numerator : ℚ) / denominator = x.value) :
    ofRatio? x.negative numerator denominator = some x := by
  have hnumerator : 0 < numerator := by
    rw [Nat.pos_iff_ne_zero]
    rintro rfl
    rw [Nat.cast_zero, zero_div] at hratio
    exact hpos.ne' (value_eq_zero_iff.mp hratio.symm)
  obtain ⟨z, hz, hsign, hlow, hhigh⟩ :=
    ofRatio?_bounds hnumerator hdenominator hratio.ge hratio.le x.negative
  rw [hz, eq_of_value hpos hsign.symm (hlow.antisymm hhigh)]

/-! ## Integers of 64 bits -/

/-- Every integer of 64 bits has a nearest number. -/
theorem ofDecimal?_ofInt {n : Int} (hlt : n.natAbs < 2 ^ 64) :
    ofDecimal? (n < 0) n.natAbs 0 = some (ofInt n) := by
  suffices hsome : ofDecimal? (n < 0) n.natAbs 0 ≠ none by
    obtain ⟨x, hx⟩ := Option.ne_none_iff_exists'.mp hsome
    rw [ofInt, hx, Option.getD_some]
  have hlength : (Text.decimalDigits n.natAbs).length ≤ 20 := by
    rw [Text.decimalDigits, Nat.length_toDigits_le_iff (by decide) (by decide)]
    omega
  obtain ⟨y, -, hy⟩ := exists_value (m := 1) (by decide) (k := 64) (by decide)
  unfold ofDecimal?
  dsimp only
  split
  next => exact Option.some_ne_none _
  next hnonzero =>
    rw [not_or] at hnonzero
    rw [if_neg (by omega), if_pos le_rfl, Int.toNat_zero, Nat.pow_eq, pow_zero, mul_one]
    have hle : (n.natAbs : ℚ) / (1 : Nat) ≤ y.value := by
      rw [hy, Nat.cast_one, div_one, one_mul]
      exact_mod_cast hlt.le
    obtain ⟨z, hz, -⟩ :=
      exists_ofRatio? (Nat.pos_of_ne_zero hnonzero.1) one_pos hle (n < 0)
    rw [hz]
    exact Option.some_ne_none z

end ArgumentContract.Binary64
