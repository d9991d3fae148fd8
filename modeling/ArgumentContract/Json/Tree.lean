import ArgumentContract.Json.NumberLiteral
import ArgumentContract.Json.StringLiteral

/-!
# Reading whole documents

A document of any shape is read into a tree.  Lists and objects may be nested a limited number of
times, which the readers count down.
-/

namespace ArgumentContract.Json

/-- How many lists and objects may be open at once. -/
def nestingLimit : Nat := 127

/-- Reads the members of an object up to its end; `value` reads what follows a colon. -/
def readMembers {α : Type} (value : Reader α) : Nat → Bool → Reader (List (String × α))
  | 0, _, _ => .error (.unfinished .object)
  | count + 1, first, text => do
      match ← nextKey first text with
      | .closed rest => return ([], rest)
      | .element rest =>
          let (key, rest) ← readString rest
          let rest ← readColon rest
          let (head, rest) ← value rest
          let (tail, rest) ← readMembers value count false rest
          return ((key, head) :: tail, rest)

def startsNumber (c : Char) : Bool := c == '-' || c.isDigit

/-- Reads a part of a document that is neither a list nor an object. -/
def readAtom : Reader Json
  | [] => .error (.unfinished .value)
  | 'n' :: text => do return (.null, ← readWord "ull".toList text)
  | 't' :: text => do return (.bool true, ← readWord "rue".toList text)
  | 'f' :: text => do return (.bool false, ← readWord "alse".toList text)
  | '"' :: text => do
      let (content, rest) ← readString text
      return (.string content, rest)
  | c :: text =>
      if startsNumber c then do
        let (n, rest) ← readNumber (c :: text)
        return (.number n, rest)
      else .error .expectedValue

/-- Reads a document in which at most `depth` lists and objects are open at once. -/
def readTree (depth : Nat) : Reader Json := fun text =>
  match skipBlanks text with
  | '[' :: rest =>
      match depth with
      | 0 => .error .nestedTooDeeply
      | depth + 1 => do
          let (items, rest) ← readItems (readTree depth) rest.length true rest
          return (.array items, rest)
  | '\x7b' :: rest =>
      match depth with
      | 0 => .error .nestedTooDeeply
      | depth + 1 => do
          let (members, rest) ← readMembers (readTree depth) rest.length true rest
          return (.object members, rest)
  | text => readAtom text

/-- Reads a text that consists of one document and blanks. -/
def readDocument {α : Type} (reader : Nat → Reader α) (text : String) : Except Fault α := do
  let (document, rest) ← reader nestingLimit text.toList
  if (skipBlanks rest).isEmpty then return document
  else .error .trailingCharacters

end ArgumentContract.Json
