import ArgumentContract.Message.Index
import Mathlib.Tactic

/-!
# Values of argument positions

The value of a position is computed digit by digit, with a clamp after every multiplication and
after every addition.  All clamps together amount to a single one: the value is the number that the
digits denote, or the greatest value if that is smaller.  A position is therefore zero exactly if
all of its digits are.
-/

namespace ArgumentContract

namespace ArgumentIndex

theorem pushDigit_min (n : Nat) (digit : Char) :
    pushDigit (min n greatest) digit =
      min (10 * n + (digit.toNat - '0'.toNat)) greatest := by
  unfold pushDigit
  generalize greatest = bound
  generalize digit.toNat - '0'.toNat = d
  omega

theorem foldl_pushDigit_min (digits : List Char) (n : Nat) :
    digits.foldl pushDigit (min n greatest) =
      min (Nat.ofDigitChars 10 digits n) greatest := by
  induction digits generalizing n with
  | nil => simp
  | cons digit rest ih =>
      rw [List.foldl_cons, pushDigit_min, ih, Nat.ofDigitChars_cons]

/-- The value of a run of digits is the number they denote, clamped once. -/
theorem saturatedValue_eq_min (digits : List Char) :
    saturatedValue digits = min (Text.decimalValue digits) greatest := by
  have hfold := foldl_pushDigit_min digits 0
  rw [Nat.zero_min] at hfold
  exact hfold

/-- The number that the digits of a position denote, however large it is. -/
def number (index : ArgumentIndex) : Nat := Text.decimalValue index.digits.toList

theorem value_eq_min (index : ArgumentIndex) : index.value = min index.number greatest :=
  saturatedValue_eq_min index.digits.toList

theorem ofDigitChars_eq_zero_iff (digits : List Char) (n : Nat) :
    Nat.ofDigitChars 10 digits n = 0 ↔
      n = 0 ∧ ∀ c ∈ digits, c.toNat - '0'.toNat = 0 := by
  induction digits generalizing n with
  | nil => simp
  | cons digit rest ih =>
      rw [Nat.ofDigitChars_cons, ih, List.forall_mem_cons]
      constructor
      · intro h
        obtain ⟨hsum, hrest⟩ := h
        exact ⟨by omega, by omega, hrest⟩
      · intro h
        obtain ⟨rfl, hdigit, hrest⟩ := h
        exact ⟨by omega, hrest⟩

theorem toNat_sub_eq_zero_iff
    {c : Char} (hdigit : c.isDigit = true) :
    c.toNat - '0'.toNat = 0 ↔ c = '0' := by
  have hbounds : '0'.toNat ≤ c.toNat := by
    simp only [Char.isDigit, Bool.and_eq_true, decide_eq_true_eq] at hdigit
    exact hdigit.1
  constructor
  · intro hzero
    exact Char.toNat_inj.mp (by omega)
  · intro h
    rw [h, Nat.sub_self]

theorem value_eq_zero_iff (index : ArgumentIndex) :
    index.value = 0 ↔ ∀ c ∈ index.digits.toList, c = '0' := by
  have hbound : 0 < greatest := by decide
  have hmin :
      min (Text.decimalValue index.digits.toList) greatest = 0 ↔
        Text.decimalValue index.digits.toList = 0 := by
    omega
  rw [value, saturatedValue_eq_min, hmin, Text.decimalValue, ofDigitChars_eq_zero_iff]
  constructor
  · intro h c hmem
    exact (toNat_sub_eq_zero_iff (index.digits_isDigit c hmem)).mp (h.2 c hmem)
  · intro hall
    refine ⟨rfl, fun c hmem => ?_⟩
    rw [hall c hmem]
    rfl

/-- A position is at least one exactly if one of its digits is not zero. -/
theorem one_le_value_iff (index : ArgumentIndex) :
    1 ≤ index.value ↔ ∃ c ∈ index.digits.toList, c ≠ '0' := by
  rw [Nat.one_le_iff_ne_zero, Ne, value_eq_zero_iff]
  push Not
  rfl

theorem value_mono {first second : ArgumentIndex} (hle : first.number ≤ second.number) :
    first.value ≤ second.value := by
  rw [value_eq_min, value_eq_min]
  exact min_le_min_right greatest hle

theorem ofDigits?_digits (index : ArgumentIndex) :
    ofDigits? index.digits = some index := by
  have hne : index.digits.toList.isEmpty = false :=
    List.isEmpty_eq_false_iff.mpr index.digits_ne_nil
  have hall : index.digits.toList.all Char.isDigit = true :=
    List.all_eq_true.mpr index.digits_isDigit
  unfold ofDigits?
  rw [dif_pos ⟨hne, hall⟩]

theorem ofDigits?_eq_some_iff {text : String} {index : ArgumentIndex} :
    ofDigits? text = some index ↔ index.digits = text := by
  constructor
  · intro hindex
    unfold ofDigits? at hindex
    split at hindex
    next h => rw [← Option.some.inj hindex]
    next h => contradiction
  · intro htext
    rw [← htext]
    exact ofDigits?_digits index

theorem exists_ofDigits?_eq_some_iff {text : String} :
    (∃ index, ofDigits? text = some index) ↔
      text ≠ "" ∧ ∀ c ∈ text.toList, c.isDigit = true := by
  have hempty : text ≠ "" ↔ text.toList ≠ [] := by
    rw [Ne, Ne, ← String.toList_inj]
    rfl
  rw [hempty]
  constructor
  · intro h
    obtain ⟨index, hindex⟩ := h
    obtain rfl := ofDigits?_eq_some_iff.mp hindex
    exact ⟨index.digits_ne_nil, index.digits_isDigit⟩
  · intro h
    exact ⟨⟨text, h.1, h.2⟩, ofDigits?_eq_some_iff.mpr rfl⟩

theorem number_ofNat (n : Nat) : (ofNat n).number = n := by
  rw [number, ofNat, String.toList_ofList, Text.decimalValue_decimalDigits]

/-- The positions are the non-empty runs of digits, kept as they are written.  The value is the
number that the digits denote, clamped once, and a number that needs no clamp is the value of its
shortest digits. -/
theorem ofDigits?_clamps_once :
    (∀ text : String,
        (∃ index, ofDigits? text = some index) ↔
          text ≠ "" ∧ ∀ c ∈ text.toList, c.isDigit = true) ∧
      (∀ (text : String) (index : ArgumentIndex), ofDigits? text = some index →
        index.digits = text ∧
          index.value = min (Text.decimalValue text.toList) (2 ^ 64 - 1) ∧
          (index.value = 0 ↔ ∀ c ∈ text.toList, c = '0')) ∧
      (∀ first second : ArgumentIndex,
        Text.decimalValue first.digits.toList ≤ Text.decimalValue second.digits.toList →
          first.value ≤ second.value) ∧
      ∀ n : UInt64,
        ofDigits? (String.ofList (Text.decimalDigits n.toNat)) = some (ofNat n.toNat) ∧
          (ofNat n.toNat).value = n.toNat := by
  refine ⟨fun text => exists_ofDigits?_eq_some_iff, ?_, fun first second => value_mono, ?_⟩
  · intro text index hindex
    obtain rfl := ofDigits?_eq_some_iff.mp hindex
    exact ⟨rfl, index.value_eq_min, index.value_eq_zero_iff⟩
  · intro n
    refine ⟨ofDigits?_eq_some_iff.mpr rfl, ?_⟩
    have hlt : n.toNat < 2 ^ 64 := n.toNat_lt
    have hgreatest : greatest = 2 ^ 64 - 1 := rfl
    rw [value_eq_min, number_ofNat]
    omega

/-- The first number that is clamped, written with zeros in front, and the greatest one that is
not. -/
theorem ofDigits?_clamps_padded_digits :
    ∃ first second : ArgumentIndex,
      ofDigits? "0018446744073709551616" = some first ∧
        ofDigits? "18446744073709551615" = some second ∧
        first.value = 2 ^ 64 - 1 ∧ second.value = 2 ^ 64 - 1 ∧ first.value ≠ 0 ∧
        second.value ≤ first.value := by
  let first : ArgumentIndex :=
    ⟨"0018446744073709551616", by decide, List.all_eq_true.mp rfl⟩
  let second : ArgumentIndex :=
    ⟨"18446744073709551615", by decide, List.all_eq_true.mp rfl⟩
  obtain ⟨-, hvalue, hmono, -⟩ := ofDigits?_clamps_once
  have hfirst : ofDigits? "0018446744073709551616" = some first := rfl
  have hsecond : ofDigits? "18446744073709551615" = some second := rfl
  obtain ⟨-, hfirstValue, hfirstZero⟩ := hvalue _ _ hfirst
  obtain ⟨-, hsecondValue, -⟩ := hvalue _ _ hsecond
  refine ⟨first, second, hfirst, hsecond, ?_, ?_, ?_, hmono second first (by decide)⟩
  · rw [hfirstValue]
    decide
  · rw [hsecondValue]
    decide
  · intro hzero
    exact absurd (hfirstZero.mp hzero '1' (by decide)) (by decide)

end ArgumentIndex

end ArgumentContract
