import ArgumentContract.Json.Reader
import ArgumentContract.Text.Width

/-!
# String literals

Strings are read behind their opening quote.  Escapes of four hexadecimal digits stand for UTF-16
code units, and code points beyond the first plane take two of them; a unit of such a pair never
stands alone.  `skipString` passes over a literal whose content does not matter and does not look
at pairs.
-/

namespace ArgumentContract.Json

def hexValue? (c : Char) : Option Nat :=
  if c.isDigit then some (c.toNat - '0'.toNat)
  else if 'a' ≤ c ∧ c ≤ 'f' then some (c.toNat - 'a'.toNat + 10)
  else if 'A' ≤ c ∧ c ≤ 'F' then some (c.toNat - 'A'.toNat + 10)
  else none

def codeUnit? (a b c d : Char) : Option Nat := do
  let a ← hexValue? a
  let b ← hexValue? b
  let c ← hexValue? c
  let d ← hexValue? d
  return ((a * 16 + b) * 16 + c) * 16 + d

/-- The fault of an escape whose digits are cut short by other text or by the end. -/
def shortEscape (text : List Char) : Fault :=
  if Text.width text < 4 then .unfinished .string else .invalidEscape

def isLeading (unit : Nat) : Bool := 0xd800 ≤ unit && unit < 0xdc00

def isTrailing (unit : Nat) : Bool := 0xdc00 ≤ unit && unit < 0xe000

/-- The character that a pair of code units stands for. -/
def pairedChar (leading trailing : Nat) : Char :=
  Char.ofNat ((leading - 0xd800) * 0x400 + (trailing - 0xdc00) + 0x10000)

/-- The character that a backslash and another character stand for. -/
def escapedChar? : Char → Option Char
  | '"' => some '"'
  | '\\' => some '\\'
  | '/' => some '/'
  | 'b' => some '\x08'
  | 'f' => some '\x0c'
  | 'n' => some '\n'
  | 'r' => some '\r'
  | 't' => some '\t'
  | _ => none

/-- The fault of a leading unit that is not followed by another escape of a unit. -/
def missingTrailing : List Char → Fault
  | [] | ['\\'] => .unfinished .string
  | '\\' :: 'u' :: text => shortEscape text
  | _ => .unfinishedSurrogate

/-- Puts a character in front of what a reader found. -/
def prepend (c : Char) (found : Except Fault (List Char × List Char)) :
    Except Fault (List Char × List Char) :=
  match found with
  | .ok (text, rest) => .ok (c :: text, rest)
  | .error fault => .error fault

/-- Reads the characters of a string up to its closing quote. -/
def readChars : Reader (List Char)
  | [] => .error (.unfinished .string)
  | '"' :: rest => .ok ([], rest)
  | '\\' :: 'u' :: a :: b :: c :: d :: rest =>
      match codeUnit? a b c d with
      | none => .error .invalidEscape
      | some unit =>
          if isTrailing unit then .error .loneSurrogate
          else if isLeading unit then
            match rest with
            | '\\' :: 'u' :: e :: f :: g :: h :: rest =>
                match codeUnit? e f g h with
                | none => .error .invalidEscape
                | some trailing =>
                    if isTrailing trailing then
                      prepend (pairedChar unit trailing) (readChars rest)
                    else .error .loneSurrogate
            | rest => .error (missingTrailing rest)
          else prepend (Char.ofNat unit) (readChars rest)
  | '\\' :: 'u' :: rest => .error (shortEscape rest)
  | '\\' :: c :: rest =>
      match escapedChar? c with
      | some escaped => prepend escaped (readChars rest)
      | none => .error .invalidEscape
  | ['\\'] => .error (.unfinished .string)
  | c :: rest =>
      if c.toNat < 0x20 then .error .controlCharacter
      else prepend c (readChars rest)

/-- Reads a string behind its opening quote. -/
def readString : Reader String := fun text =>
  match readChars text with
  | .ok (content, rest) => .ok (String.ofList content, rest)
  | .error fault => .error fault

/-- Passes over a string behind its opening quote. -/
def skipString : List Char → Except Fault (List Char)
  | [] => .error (.unfinished .string)
  | '"' :: rest => .ok rest
  | '\\' :: 'u' :: a :: b :: c :: d :: rest =>
      match codeUnit? a b c d with
      | none => .error .invalidEscape
      | some _ => skipString rest
  | '\\' :: 'u' :: rest => .error (shortEscape rest)
  | '\\' :: c :: rest =>
      match escapedChar? c with
      | some _ => skipString rest
      | none => .error .invalidEscape
  | ['\\'] => .error (.unfinished .string)
  | c :: rest =>
      if c.toNat < 0x20 then .error .controlCharacter else skipString rest

end ArgumentContract.Json
