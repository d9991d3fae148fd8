import ArgumentContract.Json.Printer
import ArgumentContract.Text.Quoted

/-!
# Faults of JSON texts

Why a text is not the document that was asked for.  Either it ends too early, or it is no JSON
text at all, or it is one of another shape.
-/

namespace ArgumentContract.Json

/-- What was being read when the text ended. -/
inductive Place
  | value
  | list
  | object
  | string
deriving DecidableEq, Repr

/-- A part of a document as a fault mentions it. -/
inductive Found
  | null
  | bool (b : Bool)
  | number (n : JsonNumber)
  | string (text : String)
  | sequence
  | map
deriving DecidableEq

/-- The shape that was asked for. -/
inductive Wanted
  | string
  | sequence
  | natural
  | unit
  | record (title : String)
deriving DecidableEq, Repr

inductive Fault
  | unfinished (place : Place)
  | expectedValue
  | expectedIdent
  | expectedColon
  | expectedListSeparator
  | expectedObjectSeparator
  | keyNotString
  | trailingComma
  | trailingCharacters
  | invalidNumber
  | numberOutOfRange
  | invalidEscape
  | unfinishedSurrogate
  | loneSurrogate
  | controlCharacter
  | nestedTooDeeply
  | missingField (name : String)
  | duplicateField (name : String)
  | wrongType (found : Found) (wanted : Wanted)
  | wrongValue (found : Found) (wanted : Wanted)
  /-- An array with too few elements for a record with `size` fields. -/
  | wrongLength (length : Nat) (title : String) (size : Nat)
  | unknownVariant (name : String) (variants : List String)
  /-- A value of none of the shapes that an argument can have. -/
  | noVariant (title : String)
deriving DecidableEq

/-- The kinds of faults. -/
inductive FaultKind
  | endsTooEarly
  | notJson
  | otherShape
deriving DecidableEq, Repr

namespace Fault

def kind : Fault → FaultKind
  | unfinished _ => .endsTooEarly
  | missingField _ | duplicateField _ | wrongType _ _ | wrongValue _ _ | wrongLength _ _ _
  | unknownVariant _ _ | noVariant _ => .otherShape
  | _ => .notJson

end Fault

def Place.message : Place → String
  | value => "a value"
  | list => "a list"
  | object => "an object"
  | string => "a string"

def Found.message : Found → String
  | null => "null"
  | bool b => "boolean `" ++ (if b then "true" else "false") ++ "`"
  | number (.integer n) => "integer `" ++ String.ofList (Text.integerText n) ++ "`"
  | number (.real x) => "floating point `" ++ String.ofList (JsonNumber.real x).print ++ "`"
  | string text => "string " ++ String.ofList (Text.quoted text.toList)
  | sequence => "sequence"
  | map => "map"

def Wanted.message : Wanted → String
  | string => "a string"
  | sequence => "a sequence"
  | natural => "u64"
  | unit => "unit"
  | record title => "struct " ++ title

/-- Names between backquotes, joined as alternatives. -/
def alternatives : List String → String
  | [first, second] => "`" ++ first ++ "` or `" ++ second ++ "`"
  | names =>
      "one of " ++ String.intercalate ", " (names.map fun name => "`" ++ name ++ "`")

def Fault.message : Fault → String
  | unfinished place => "EOF while parsing " ++ place.message
  | expectedValue => "expected value"
  | expectedIdent => "expected ident"
  | expectedColon => "expected `:`"
  | expectedListSeparator => "expected `,` or `]`"
  | expectedObjectSeparator => "expected `,` or `\x7d`"
  | keyNotString => "key must be a string"
  | trailingComma => "trailing comma"
  | trailingCharacters => "trailing characters"
  | invalidNumber => "invalid number"
  | numberOutOfRange => "number out of range"
  | invalidEscape => "invalid escape"
  | unfinishedSurrogate => "unexpected end of hex escape"
  | loneSurrogate => "lone leading surrogate in hex escape"
  | controlCharacter =>
      "control character (\\u0000-\\u001F) found while parsing a string"
  | nestedTooDeeply => "recursion limit exceeded"
  | missingField name => "missing field `" ++ name ++ "`"
  | duplicateField name => "duplicate field `" ++ name ++ "`"
  | wrongType found wanted =>
      "invalid type: " ++ found.message ++ ", expected " ++ wanted.message
  | wrongValue found wanted =>
      "invalid value: " ++ found.message ++ ", expected " ++ wanted.message
  | wrongLength length title size =>
      "invalid length " ++ length.repr ++ ", expected struct " ++ title ++ " with "
        ++ size.repr ++ " elements"
  | unknownVariant name variants =>
      "unknown variant `" ++ name ++ "`, expected " ++ alternatives variants
  | noVariant title => "data did not match any variant of untagged enum " ++ title

end ArgumentContract.Json
