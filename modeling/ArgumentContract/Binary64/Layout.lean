import ArgumentContract.Binary64.Shortest

/-!
# Writing binary64 numbers

The digits of a number are its shortest decimal form.  A `Layout` says which magnitudes are written
positionally; the others are written with an exponent.
-/

namespace ArgumentContract.Binary64

/-- How numbers are written: positionally if the power of ten of the first digit lies between
`leastPositional` and `greatestPositional`, with an exponent otherwise. -/
structure Layout where
  leastPositional : Int
  greatestPositional : Int
  /-- Written after a whole number in positional form. -/
  wholeMark : List Char
  /-- Written in front of the digits of an exponent that is not negative. -/
  positiveMark : List Char

namespace Layout

/-- Digits with a point after the first `whole` of them. -/
def pointed (layout : Layout) (digits : List Char) (whole : Nat) : List Char :=
  if digits.length ≤ whole then
    digits ++ List.replicate (whole - digits.length) '0' ++ layout.wholeMark
  else digits.take whole ++ '.' :: digits.drop whole

/-- Digits with one of them in front of the point, and an exponent. -/
def scaled (layout : Layout) (digits : List Char) (magnitude : Int) : List Char :=
  let mantissa := match digits with
    | [] => []
    | [digit] => [digit]
    | digit :: rest => digit :: '.' :: rest
  let sign := if magnitude < 0 then ['-'] else layout.positiveMark
  mantissa ++ 'e' :: sign ++ Text.decimalDigits magnitude.natAbs

def ofDecimal (layout : Layout) (decimal : Decimal) : List Char :=
  let digits := Text.decimalDigits decimal.significand
  let magnitude := decimal.exponent + digits.length - 1
  if magnitude < layout.leastPositional ∨ layout.greatestPositional < magnitude then
    layout.scaled digits magnitude
  else if magnitude < 0 then
    '0' :: '.' :: List.replicate (-magnitude - 1).toNat '0' ++ digits
  else layout.pointed digits (magnitude + 1).toNat

def write (layout : Layout) (x : Binary64) : List Char :=
  let magnitude :=
    if x.significand = 0 then '0' :: layout.wholeMark
    else layout.ofDecimal x.shortest
  if x.negative then '-' :: magnitude else magnitude

end Layout

end ArgumentContract.Binary64
