import ArgumentContract.Binary64.Layout
import ArgumentContract.Json.Basic

/-!
# Printing JSON

Documents are printed on one line without blanks, or spread over lines with an indentation of two
blanks for each level.  Strings escape quotes, backslashes and control characters, and nothing
else.
-/

namespace ArgumentContract

/-- Real numbers are positional from `0.00001` up to the sixteenth digit in front of the point,
with at least one decimal; exponents carry their sign. -/
def JsonNumber.layout : Binary64.Layout where
  leastPositional := -5
  greatestPositional := 15
  wholeMark := ['.', '0']
  positiveMark := ['+']

def JsonNumber.print : JsonNumber → List Char
  | integer n => Text.integerText n
  | real x => layout.write x

namespace Json

def hexDigit (n : Nat) : Char := Nat.digitChar (n % 16)

/-- A character as it stands in a printed string. -/
def escapeChar (c : Char) : List Char :=
  match c with
  | '"' => ['\\', '"']
  | '\\' => ['\\', '\\']
  | '\x08' => ['\\', 'b']
  | '\x0c' => ['\\', 'f']
  | '\n' => ['\\', 'n']
  | '\r' => ['\\', 'r']
  | '\t' => ['\\', 't']
  | c =>
      if c.toNat < 0x20 then
        ['\\', 'u', '0', '0', hexDigit (c.toNat / 16), hexDigit c.toNat]
      else [c]

def printString (text : String) : List Char :=
  '"' :: text.toList.flatMap escapeChar ++ ['"']

/-- Puts separators between printed parts. -/
def separate (separator : List Char) : List (List Char) → List Char
  | [] => []
  | [part] => part
  | part :: rest => part ++ separator ++ separate separator rest

mutual

def compact : Json → List Char
  | null => "null".toList
  | bool b => (if b then "true" else "false").toList
  | number n => n.print
  | string text => printString text
  | array items => '[' :: separate [','] (compactItems items) ++ [']']
  | object members => '\x7b' :: separate [','] (compactMembers members) ++ ['\x7d']

def compactItems : List Json → List (List Char)
  | [] => []
  | item :: rest => compact item :: compactItems rest

def compactMembers : List (String × Json) → List (List Char)
  | [] => []
  | (key, value) :: rest => (printString key ++ ':' :: compact value) :: compactMembers rest

end

/-- A line break and the indentation of the given level. -/
def lineBreak (level : Nat) : List Char := '\n' :: List.replicate (2 * level) ' '

/-- Printed parts between brackets, each on a line of its own. -/
def block (level : Nat) (opening closing : Char) (parts : List (List Char)) : List Char :=
  if parts.isEmpty then [opening, closing]
  else
    opening :: lineBreak (level + 1) ++ separate (',' :: lineBreak (level + 1)) parts
      ++ lineBreak level ++ [closing]

mutual

/-- A document on several lines, where the first one is already indented. -/
def indented (level : Nat) : Json → List Char
  | null => "null".toList
  | bool b => (if b then "true" else "false").toList
  | number n => n.print
  | string text => printString text
  | array items => block level '[' ']' (indentedItems (level + 1) items)
  | object members => block level '\x7b' '\x7d' (indentedMembers (level + 1) members)

def indentedItems (level : Nat) : List Json → List (List Char)
  | [] => []
  | item :: rest => indented level item :: indentedItems level rest

def indentedMembers (level : Nat) : List (String × Json) → List (List Char)
  | [] => []
  | (key, value) :: rest =>
      (printString key ++ ':' :: ' ' :: indented level value) :: indentedMembers level rest

end

def toText (document : Json) : String := String.ofList document.compact

def toIndentedText (document : Json) : String := String.ofList (document.indented 0)

end Json

end ArgumentContract
