/-!
# Numeric text

A text is numeric if it denotes a decimal number as a whole: blanks in front, an optional sign,
digits with an optional fraction, and an optional exponent.  At least one digit stands in front of
the exponent, and nothing follows the number, not even a blank.
-/

namespace ArgumentContract.Numeral

/-- The blanks that may stand in front of a numeral. -/
def isBlank (c : Char) : Bool :=
  c == ' ' || c == '\t' || c == '\n' || c == '\r' || c == '\x0b' || c == '\x0c'

def isSign (c : Char) : Bool := c == '+' || c == '-'

def dropSign : List Char → List Char
  | c :: rest => if isSign c then rest else c :: rest
  | [] => []

/-- What is left after digits and an optional fraction, if they hold at least one digit. -/
def afterMantissa (text : List Char) : Option (List Char) :=
  let whole := text.takeWhile Char.isDigit
  match text.dropWhile Char.isDigit with
  | '.' :: rest =>
      if whole.isEmpty && (rest.takeWhile Char.isDigit).isEmpty then none
      else some (rest.dropWhile Char.isDigit)
  | rest => if whole.isEmpty then none else some rest

/-- Whether a text is empty or exactly one exponent. -/
def isExponentOrNothing : List Char → Bool
  | [] => true
  | c :: rest =>
      let digits := dropSign rest
      (c == 'e' || c == 'E') && !digits.isEmpty && digits.all Char.isDigit

/-- Whether a text is a decimal number. -/
def isNumeric (text : String) : Bool :=
  match afterMantissa (dropSign (text.toList.dropWhile isBlank)) with
  | some rest => isExponentOrNothing rest
  | none => false

end ArgumentContract.Numeral
