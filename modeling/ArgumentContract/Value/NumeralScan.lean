import ArgumentContract.Value.Numeral

/-!
# Scanning numeric text by index

The numeral test can also be made on the bytes of a text, with an index that walks over them and a
count of the digits in front of the exponent.  Here an index at which a byte is fetched has to be
in range, and a length must not come out negative; a scan that broke one of these rules would stop
with a fault.
-/

namespace ArgumentContract.Numeral

/-- How a scan can go wrong. -/
inductive ScanFault
  /-- A byte was fetched from behind the end. -/
  | outOfRange (index : Nat)
  /-- A run was measured from behind its end. -/
  | negativeLength (start stop : Nat)
deriving DecidableEq, Repr

def fetch (bytes : ByteArray) (index : Nat) : Except ScanFault UInt8 :=
  match bytes[index]? with
  | some byte => .ok byte
  | none => .error (.outOfRange index)

/-- The length of a run from one index up to another. -/
def runLength (start stop : Nat) : Except ScanFault Nat :=
  if start ≤ stop then .ok (stop - start) else .error (.negativeLength start stop)

def isDigitByte (byte : UInt8) : Bool := '0'.toUInt8 ≤ byte && byte ≤ '9'.toUInt8

def isSignByte (byte : UInt8) : Bool := byte == '+'.toUInt8 || byte == '-'.toUInt8

def isExponentByte (byte : UInt8) : Bool := byte == 'e'.toUInt8 || byte == 'E'.toUInt8

/-- The index behind the digits that start at an index. -/
def digitsFrom (bytes : ByteArray) (index : Nat) : Except ScanFault Nat :=
  if index < bytes.size then do
    if isDigitByte (← fetch bytes index) then digitsFrom bytes (index + 1)
    else return index
  else return index
termination_by bytes.size - index

/-- The index behind an optional sign. -/
def afterSign (bytes : ByteArray) (index : Nat) : Nat :=
  if bytes[index]?.any isSignByte then index + 1 else index

/-- Scans digits with an optional fraction; the number of digits, and the index behind them. -/
def scanMantissa (bytes : ByteArray) (start : Nat) : Except ScanFault (Nat × Nat) := do
  let wholeStop ← digitsFrom bytes start
  let wholeLength ← runLength start wholeStop
  if bytes[wholeStop]? = some '.'.toUInt8 then
    let stop ← digitsFrom bytes (wholeStop + 1)
    return (wholeLength + (← runLength (wholeStop + 1) stop), stop)
  else return (wholeLength, wholeStop)

/-- Scans an optional exponent; the index behind it, unless it has no digits. -/
def scanExponent (bytes : ByteArray) (start : Nat) : Except ScanFault (Option Nat) := do
  if bytes[start]?.any isExponentByte then
    let digitsStart := afterSign bytes (start + 1)
    let stop ← digitsFrom bytes digitsStart
    return if stop = digitsStart then none else some stop
  else return some start

/-- Whether a text is a decimal number, by a scan of its bytes behind the blanks in front. -/
def scan (text : String) : Except ScanFault Bool := do
  let bytes := (String.ofList (text.toList.dropWhile isBlank)).toUTF8
  let (digits, mantissaStop) ← scanMantissa bytes (afterSign bytes 0)
  if digits = 0 then return false
  match ← scanExponent bytes mantissaStop with
  | some stop => return stop == bytes.size
  | none => return false

end ArgumentContract.Numeral
