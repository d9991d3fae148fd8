import ArgumentContract.Json.NumberLiteral
import ArgumentContract.Json.Printer
import Mathlib.Tactic

/-!
# Printed integers are read back

An integer is printed without superfluous zeros, without a fraction and without an exponent.  It is
read back as an integer if it fits into 64 bits, provided that the text behind it does not make the
number longer.
-/

namespace ArgumentContract

/-! ## Digits -/

theorem Text.head?_decimalDigits_of_pos {n : Nat} (hpos : 0 < n) :
    (decimalDigits n).head? ≠ some '0' := by
  induction n using Nat.strong_induction_on with
  | h n ih =>
      rw [decimalDigits, Nat.toDigits_eq_if (by decide)]
      split
      next hsmall =>
        interval_cases n <;> decide
      next hlarge =>
        have hquotient : (Nat.toDigits 10 (n / 10)).head? ≠ some '0' :=
          ih (n / 10) (by omega) (by omega)
        have hne : Nat.toDigits 10 (n / 10) ≠ [] := decimalDigits_ne_nil (n / 10)
        rw [List.head?_append_of_ne_nil _ hne]
        exact hquotient

theorem Text.decimalDigits_ne_zero_cons (n : Nat) (c : Char) (rest : List Char) :
    decimalDigits n ≠ '0' :: c :: rest := by
  intro hdigits
  rcases Nat.eq_zero_or_pos n with rfl | hpos
  · have hzero : decimalDigits 0 = ['0'] := rfl
    simp [hzero] at hdigits
  · have hhead := head?_decimalDigits_of_pos hpos
    rw [hdigits] at hhead
    contradiction

theorem Text.exists_decimalDigits_eq_cons (n : Nat) :
    ∃ c more, decimalDigits n = c :: more ∧ c.isDigit = true := by
  obtain ⟨c, more, hdigits⟩ := List.exists_cons_of_ne_nil (decimalDigits_ne_nil n)
  have hmem : c ∈ decimalDigits n := by
    rw [hdigits]
    exact List.mem_cons_self ..
  exact ⟨c, more, hdigits, isDigit_of_mem_decimalDigits hmem⟩

namespace Json

/-- Whether a character makes a number longer that it follows. -/
def continuesNumber (c : Char) : Bool := c.isDigit || c == '.' || c == 'e' || c == 'E'

/-- A number in front of the text ends where the text begins. -/
def EndsNumber (rest : List Char) : Prop := ∀ c ∈ rest.head?, continuesNumber c = false

theorem EndsNumber.not_isDigit
    {c : Char} {rest : List Char} (hends : EndsNumber (c :: rest)) :
    c.isDigit = false := by
  have hc := hends c rfl
  simp only [continuesNumber, Bool.or_eq_false_iff] at hc
  exact hc.1.1.1

/-! ## The parts of a number -/

theorem readDigits_decimalDigits
    (n : Nat) {rest : List Char} (hends : EndsNumber rest) :
    readDigits (Text.decimalDigits n ++ rest) = .ok (Text.decimalDigits n, rest) := by
  have hdigits : ∀ c ∈ Text.decimalDigits n, c.isDigit = true :=
    fun c hmem => Text.isDigit_of_mem_decimalDigits hmem
  have hstop : rest.takeWhile Char.isDigit = [] ∧ rest.dropWhile Char.isDigit = rest := by
    cases rest with
    | nil => exact ⟨rfl, rfl⟩
    | cons c rest => simp [hends.not_isDigit]
  have hne : (Text.decimalDigits n).isEmpty = false :=
    List.isEmpty_eq_false_iff.mpr (Text.decimalDigits_ne_nil n)
  rw [readDigits, List.takeWhile_append_of_pos hdigits, List.dropWhile_append_of_pos hdigits,
    hstop.1, hstop.2, List.append_nil]
  simp [hne]

theorem readWhole_decimalDigits
    (n : Nat) {rest : List Char} (hends : EndsNumber rest) :
    readWhole (Text.decimalDigits n ++ rest) = .ok (Text.decimalDigits n, rest) := by
  rw [readWhole, readDigits_decimalDigits n hends]
  simp only [bind, Except.bind]
  split
  next c more hdigits => exact absurd hdigits (Text.decimalDigits_ne_zero_cons n c more)
  next => rfl

theorem readFraction_of_endsNumber {rest : List Char} (hends : EndsNumber rest) :
    readFraction rest = .ok (none, rest) := by
  unfold readFraction
  split
  next text =>
    have hpoint := hends '.' rfl
    contradiction
  next => rfl

theorem readExponent_of_endsNumber {rest : List Char} (hends : EndsNumber rest) :
    readExponent rest = .ok (none, rest) := by
  cases rest with
  | nil => rfl
  | cons c rest =>
      have hc := hends c rfl
      simp [continuesNumber] at hc
      rw [readExponent, if_neg (by simp [hc])]

theorem readNumberParts_integerText
    (n : Int) {rest : List Char} (hends : EndsNumber rest) :
    readNumberParts (Text.integerText n ++ rest) =
      .ok (⟨decide (n < 0), Text.decimalDigits n.natAbs, none, none⟩, rest) := by
  have hwhole := readWhole_decimalDigits n.natAbs hends
  have hfraction := readFraction_of_endsNumber hends
  have hexponent := readExponent_of_endsNumber hends
  by_cases hnegative : n < 0
  · rw [Text.integerText, if_pos hnegative, List.cons_append, readNumberParts]
    simp [hwhole, hfraction, hexponent, hnegative, bind, Except.bind, pure, Except.pure]
  · -- The first digit is no minus sign.
    obtain ⟨c, more, hdigits, hdigit⟩ := Text.exists_decimalDigits_eq_cons n.natAbs
    have hminus : c ≠ '-' := by
      rintro rfl
      contradiction
    rw [Text.integerText, if_neg hnegative]
    rw [hdigits] at hwhole ⊢
    simp only [List.cons_append] at hwhole ⊢
    unfold readNumberParts
    simp [hwhole, hfraction, hexponent, hnegative, hminus, bind, Except.bind, pure, Except.pure]

/-! ## Integers of 64 bits -/

/-- The integers that a number literal can denote. -/
def fitsLiteral (n : Int) : Bool := -0x8000000000000000 ≤ n && n ≤ 0xffffffffffffffff

theorem number?_integerText {n : Int} (hfits : fitsLiteral n = true) :
    NumberParts.number? ⟨decide (n < 0), Text.decimalDigits n.natAbs, none, none⟩ =
      some (.integer n) := by
  simp only [fitsLiteral, Bool.and_eq_true, decide_eq_true_eq] at hfits
  have hinteger :
      NumberParts.integer? ⟨decide (n < 0), Text.decimalDigits n.natAbs, none, none⟩ =
        some n := by
    simp only [NumberParts.integer?, Text.decimalValue_decimalDigits]
    by_cases hnegative : n < 0
    · have hrange : 0 < n.natAbs ∧ n.natAbs ≤ 0x8000000000000000 := by omega
      simp [hnegative, hrange, abs_of_neg hnegative]
    · have hrange : n.natAbs ≤ 0xffffffffffffffff := by omega
      simp [hnegative, hrange, Int.not_lt.mp hnegative]
  rw [NumberParts.number?, hinteger]

/-- A printed integer of 64 bits is read as that integer. -/
theorem readNumber_print
    {n : Int} (hfits : fitsLiteral n = true) {rest : List Char} (hends : EndsNumber rest) :
    readNumber ((JsonNumber.integer n).print ++ rest) = .ok (.integer n, rest) := by
  rw [JsonNumber.print, readNumber, readNumberParts_integerText n hends]
  simp only [number?_integerText hfits]

end Json

end ArgumentContract
