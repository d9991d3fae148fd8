/-!
# Decimal text

Natural numbers and integers in plain decimal notation, without grouping, sign marks of their own
or leading zeros.  Reading the digits of a number gives the number back.
-/

namespace ArgumentContract.Text

/-- The shortest decimal digits of a number. -/
def decimalDigits (n : Nat) : List Char := Nat.toDigits 10 n

def decimalValue (digits : List Char) : Nat := Nat.ofDigitChars 10 digits 0

/-- An integer in decimal, with a minus sign in front of negative ones. -/
def integerText (n : Int) : List Char :=
  if n < 0 then '-' :: decimalDigits n.natAbs else decimalDigits n.natAbs

theorem decimalDigits_ne_nil (n : Nat) : decimalDigits n ≠ [] := by
  rw [decimalDigits, Nat.toDigits_eq_if (by decide)]
  split <;> simp

theorem isDigit_of_mem_decimalDigits
    {n : Nat} {c : Char} (hmem : c ∈ decimalDigits n) :
    c.isDigit = true :=
  Nat.isDigit_of_mem_toDigits (by decide) (by decide) hmem

theorem decimalValue_decimalDigits (n : Nat) :
    decimalValue (decimalDigits n) = n :=
  Nat.ofDigitChars_ten_toDigits

end ArgumentContract.Text
