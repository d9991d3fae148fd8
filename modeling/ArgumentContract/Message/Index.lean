import ArgumentContract.Text.Decimal

/-!
# Argument positions

A violation names the offending argument by a position that counts from one.  The digits are kept
as they were written, so that a message can be rendered again character by character; the value
they denote is taken with saturation at the largest 64-bit number.  A position that large never
names an argument that was passed.
-/

namespace ArgumentContract

/-- A position as written: a run of decimal digits. -/
structure ArgumentIndex where
  digits : String
  digits_ne_nil : digits.toList ≠ []
  digits_isDigit : ∀ c ∈ digits.toList, c.isDigit = true
deriving DecidableEq

namespace ArgumentIndex

/-- The largest position that is told apart from its neighbours. -/
def greatest : Nat := 0xffffffffffffffff

/-- Appends one digit to a value, staying at `greatest` once it is reached. -/
def pushDigit (value : Nat) (digit : Char) : Nat :=
  min (min (10 * value) greatest + (digit.toNat - '0'.toNat)) greatest

/-- The saturated value of a run of digits. -/
def saturatedValue (digits : List Char) : Nat := digits.foldl pushDigit 0

/-- The position as a number, saturated at `greatest`. -/
def value (index : ArgumentIndex) : Nat := saturatedValue index.digits.toList

/-- The position counted from zero. -/
def offset (index : ArgumentIndex) : Nat := index.value - 1

/-- Takes a text as a position if it is a non-empty run of digits. -/
def ofDigits? (text : String) : Option ArgumentIndex :=
  if h : text.toList.isEmpty = false ∧ text.toList.all Char.isDigit = true then
    some ⟨text, List.isEmpty_eq_false_iff.1 h.1, List.all_eq_true.1 h.2⟩
  else none

/-- A number as a position, written with the fewest digits. -/
def ofNat (n : Nat) : ArgumentIndex where
  digits := String.ofList (Text.decimalDigits n)
  digits_ne_nil := by
    rw [String.toList_ofList]
    exact Text.decimalDigits_ne_nil n
  digits_isDigit := by
    intro c hmem
    rw [String.toList_ofList] at hmem
    exact Text.isDigit_of_mem_decimalDigits hmem

end ArgumentIndex

end ArgumentContract
