import ArgumentContract.Json.Fault

/-!
# Reading JSON

A reader takes a part of a document from the front of a text and leaves the rest.  Faults surface
in the order of the text.  Blanks are the space, the tabulator and the two line ends.
-/

namespace ArgumentContract.Json

/-- Reads a part of a document from the front of a text. -/
abbrev Reader (α : Type) := List Char → Except Fault (α × List Char)

def isBlank (c : Char) : Bool := c == ' ' || c == '\t' || c == '\n' || c == '\r'

def skipBlanks (text : List Char) : List Char := text.dropWhile isBlank

/-- Reads the rest of a fixed word. -/
def readWord : List Char → List Char → Except Fault (List Char)
  | [], text => .ok text
  | _ :: _, [] => .error (.unfinished .value)
  | c :: word, d :: text =>
      if c = d then readWord word text else .error .expectedIdent

/-- What stands next in a list or an object. -/
inductive Next
  /-- The end, with the text behind it. -/
  | closed (text : List Char)
  /-- Another element, with the text at which it starts. -/
  | element (text : List Char)
deriving DecidableEq

def nextItem (first : Bool) (text : List Char) : Except Fault Next :=
  match skipBlanks text with
  | [] => .error (.unfinished .list)
  | ']' :: rest => .ok (.closed rest)
  | ',' :: rest =>
      if first then .ok (.element (',' :: rest))
      else
        match skipBlanks rest with
        | [] => .error (.unfinished .value)
        | ']' :: _ => .error .trailingComma
        | rest => .ok (.element rest)
  | rest => if first then .ok (.element rest) else .error .expectedListSeparator

/-- Goes to the next key of an object, behind its opening quote. -/
def nextKey (first : Bool) (text : List Char) : Except Fault Next :=
  match skipBlanks text with
  | [] => .error (.unfinished .object)
  | '\x7d' :: rest => .ok (.closed rest)
  | ',' :: rest =>
      if first then .error .keyNotString
      else
        match skipBlanks rest with
        | [] => .error (.unfinished .value)
        | '"' :: rest => .ok (.element rest)
        | '\x7d' :: _ => .error .trailingComma
        | _ => .error .keyNotString
  | '"' :: rest => if first then .ok (.element rest) else .error .expectedObjectSeparator
  | _ => if first then .error .keyNotString else .error .expectedObjectSeparator

def readColon (text : List Char) : Except Fault (List Char) :=
  match skipBlanks text with
  | [] => .error (.unfinished .object)
  | ':' :: rest => .ok rest
  | _ => .error .expectedColon

/-- Reads the end of a list all of whose elements were read. -/
def closeList (text : List Char) : Except Fault (List Char) :=
  match skipBlanks text with
  | [] => .error (.unfinished .list)
  | ']' :: rest => .ok rest
  | ',' :: rest =>
      match skipBlanks rest with
      | ']' :: _ => .error .trailingComma
      | _ => .error .trailingCharacters
  | _ => .error .trailingCharacters

/-- Reads the elements of a list up to its end.  Every element takes at least one character, so
that a text is over when as many elements were read as it has characters. -/
def readItems {α : Type} (item : Reader α) : Nat → Bool → Reader (List α)
  | 0, _, _ => .error (.unfinished .list)
  | count + 1, first, text => do
      match ← nextItem first text with
      | .closed rest => return ([], rest)
      | .element rest =>
          let (head, rest) ← item rest
          let (tail, rest) ← readItems item count false rest
          return (head :: tail, rest)

end ArgumentContract.Json
