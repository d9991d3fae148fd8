import ArgumentContract.Binary64.Nearest
import ArgumentContract.Json.Shape
import ArgumentContract.Value.Basic

/-!
# Values as documents

Values are written without a tag: the shape of a document alone says which value it is.  Resources
and closures are objects with a member of that name; any other members are passed over.  Some
documents are no values.
-/

namespace ArgumentContract

namespace Json

/-- The string under a key that an object has exactly once. -/
def soleString? (key : String) (members : List (String × Json)) : Option String :=
  match members.filter fun member => member.1 = key with
  | [(_, .string text)] => some text
  | _ => none

end Json

namespace Value

/-- The integers that a value can hold. -/
def fitsInt (n : Int) : Bool := -0x8000000000000000 ≤ n && n ≤ 0x7fffffffffffffff

def ofNumber : JsonNumber → Value
  | .integer n => if fitsInt n then int (Int64.ofInt n) else double (Binary64.ofInt n)
  | .real x => double x

def ofMembers? (members : List (String × Json)) : Option Value :=
  match Json.soleString? "resource" members with
  | some kind => some (resource kind)
  | none => (Json.soleString? "closure" members).map closure

mutual

def ofJson? : Json → Option Value
  | .null => some null
  | .bool b => some (bool b)
  | .number n => some (ofNumber n)
  | .string text => some (string text)
  | .array items => (ofItems? items).map array
  | .object members => ofMembers? members

/-- The values that the elements of a list stand for. -/
def ofItems? : List Json → Option (List Value)
  | [] => some []
  | item :: rest => do
      let head ← ofJson? item
      let tail ← ofItems? rest
      return head :: tail

end

mutual

def toJson : Value → Json
  | null => .null
  | bool b => .bool b
  | int n => .number (.integer n.toInt)
  | double x => .number (.real x)
  | string text => .string text
  | array items => .array (toItems items)
  | resource kind => .object [("resource", .string kind)]
  | closure name => .object [("closure", .string name)]

def toItems : List Value → List Json
  | [] => []
  | item :: rest => toJson item :: toItems rest

end

def read (depth : Nat) : Json.Reader Value := fun text => do
  let (document, rest) ← Json.readTree depth text
  match ofJson? document with
  | some value => return (value, rest)
  | none => .error (.noVariant "Value")

def ofText (text : String) : Except Json.Fault Value := Json.readDocument read text

/-- The values that a text lists. -/
def listOfText (text : String) : Except Json.Fault (List Value) :=
  Json.readDocument (Json.readList read) text

end Value

end ArgumentContract
