import ArgumentContract.Binary64.Basic
import ArgumentContract.Value.Numeral

/-!
# Argument values

The values that a call can pass, as far as contracts look at them, with the runtime names of their
types.  Numbers are numeric, and so are strings that denote a number.
-/

namespace ArgumentContract

inductive Value
  | null
  | bool (b : Bool)
  | int (n : Int64)
  | double (x : Binary64)
  | string (text : String)
  | array (items : List Value)
  | resource (kind : String)
  | closure (name : String)

namespace Value

def typeName : Value → String
  | null => "NULL"
  | bool _ => "boolean"
  | int _ => "integer"
  | double _ => "double"
  | string _ => "string"
  | array _ => "array"
  | resource _ => "resource"
  | closure _ => "object"

/-- Whether the value is a number or denotes one. -/
def isNumeric : Value → Bool
  | int _ | double _ => true
  | string text => Numeral.isNumeric text
  | _ => false

end Value

end ArgumentContract
