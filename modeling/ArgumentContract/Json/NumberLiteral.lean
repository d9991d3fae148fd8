import ArgumentContract.Binary64.Scaling
import ArgumentContract.Json.Reader

/-!
# Number literals

A number is an optional minus sign, digits without superfluous zeros in front, an optional
fraction and an optional exponent.  Without the last two it is an integer if it fits into 64 bits,
unsigned if it is positive and signed if it is negative.

Every other number, minus zero included, is a binary64 number.  Its significand is made of the
leading digits that fit into 64 bits, rounded, and scaled by a power of ten.  So many digits or so
large a power may miss the nearest number, and a literal may be out of range although the nearest
number is finite.
-/

namespace ArgumentContract.Json

structure NumberParts where
  negative : Bool
  whole : List Char
  fraction : Option (List Char)
  exponent : Option Int
deriving DecidableEq, Repr

inductive NumberFault
  /-- The text ends where a digit has to follow. -/
  | cutOff
  | malformed
deriving DecidableEq, Repr

/-- The fault of a text that starts with something else where a digit has to follow. -/
def missingDigit (text : List Char) : NumberFault :=
  if text.isEmpty then .cutOff else .malformed

def readDigits (text : List Char) : Except NumberFault (List Char × List Char) :=
  let digits := text.takeWhile Char.isDigit
  if digits.isEmpty then .error (missingDigit text)
  else .ok (digits, text.dropWhile Char.isDigit)

/-- Reads digits without a superfluous zero in front. -/
def readWhole (text : List Char) : Except NumberFault (List Char × List Char) := do
  let (digits, rest) ← readDigits text
  match digits with
  | '0' :: _ :: _ => .error .malformed
  | _ => .ok (digits, rest)

def readFraction : List Char → Except NumberFault (Option (List Char) × List Char)
  | '.' :: text => do
      let (digits, rest) ← readDigits text
      return (some digits, rest)
  | text => .ok (none, text)

/-- Reads the sign of an exponent, if it has one; true for a minus sign. -/
def readSign : List Char → Bool × List Char
  | '+' :: text => (false, text)
  | '-' :: text => (true, text)
  | text => (false, text)

def readExponent : List Char → Except NumberFault (Option Int × List Char)
  | c :: text =>
      if c = 'e' ∨ c = 'E' then do
        let (negative, text) := readSign text
        let (digits, rest) ← readDigits text
        let magnitude : Int := Text.decimalValue digits
        return (some (if negative then -magnitude else magnitude), rest)
      else .ok (none, c :: text)
  | [] => .ok (none, [])

def readNumberParts (text : List Char) : Except NumberFault (NumberParts × List Char) := do
  let (negative, text) := match text with
    | '-' :: text => (true, text)
    | text => (false, text)
  let (whole, text) ← readWhole text
  let (fraction, text) ← readFraction text
  let (exponent, text) ← readExponent text
  return (⟨negative, whole, fraction, exponent⟩, text)

/-- The greatest significand. -/
def greatestSignificand : Nat := 0xffffffffffffffff

/-- Appends digits to a significand up to the first one that it has no room for; the significand,
and how many digits are left over. -/
def appendDigits (significand : Nat) : List Char → Nat × Nat
  | [] => (significand, 0)
  | digit :: rest =>
      let longer := 10 * significand + (digit.toNat - '0'.toNat)
      if longer ≤ greatestSignificand then appendDigits longer rest
      else (significand, rest.length + 1)

/-- The greatest exponent that is told apart from its neighbours. -/
def greatestExponent : Nat := 0x7fffffff

/-- The significand of a literal and the power of ten in its last place.  A digit in front of the
point that is left over counts in the power, one behind the point does not.  Digits behind the
point are appended even if some in front of it are left over. -/
def NumberParts.significand (parts : NumberParts) : Nat × Int :=
  let fraction := parts.fraction.getD []
  let (whole, dropped) := appendDigits 0 parts.whole
  let (significand, ignored) := appendDigits whole fraction
  (significand, dropped - (fraction.length - ignored : Nat))

/-- The binary64 number without a sign that a literal is converted to, if it is in range. -/
def NumberParts.magnitude? (parts : NumberParts) : Option Binary64 :=
  let (significand, place) := parts.significand
  let exponent := parts.exponent.getD 0
  if exponent.natAbs ≤ greatestExponent then
    Binary64.scale? (Binary64.ofInt significand) (place + exponent)
  else if significand ≠ 0 ∧ 0 < exponent then none
  else some (Binary64.zero false)

/-- The binary64 number that a literal is converted to, if it is in range. -/
def NumberParts.real? (parts : NumberParts) : Option Binary64 :=
  parts.magnitude?.map fun x => if parts.negative then x.opposite else x

/-- The 64-bit integer that a literal denotes, if it is written as one and in range. -/
def NumberParts.integer? (parts : NumberParts) : Option Int :=
  let magnitude := Text.decimalValue parts.whole
  if parts.fraction.isSome || parts.exponent.isSome then none
  else if parts.negative then
    if 0 < magnitude ∧ magnitude ≤ 0x8000000000000000 then some (-magnitude) else none
  else if magnitude ≤ 0xffffffffffffffff then some magnitude
  else none

/-- The number that a literal denotes, if it is in range. -/
def NumberParts.number? (parts : NumberParts) : Option JsonNumber :=
  match parts.integer? with
  | some n => some (.integer n)
  | none => parts.real?.map .real

def readNumber : Reader JsonNumber := fun text =>
  match readNumberParts text with
  | .error .cutOff => .error (.unfinished .value)
  | .error .malformed => .error .invalidNumber
  | .ok (parts, rest) =>
      match parts.number? with
      | some n => .ok (n, rest)
      | none => .error .numberOutOfRange

def skipNumber (text : List Char) : Except Fault (List Char) :=
  match readNumberParts text with
  | .ok (_, rest) => .ok rest
  | .error _ => .error .invalidNumber

end ArgumentContract.Json
