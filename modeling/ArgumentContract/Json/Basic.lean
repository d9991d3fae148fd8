import ArgumentContract.Binary64.Basic

/-!
# JSON documents

A document as a tree.  Members of an object keep their order, and a key may occur more than once.
Numbers written without fraction and exponent are integers as far as 64 bits reach; all others
are binary64 numbers.
-/

namespace ArgumentContract

inductive JsonNumber
  | integer (n : Int)
  | real (x : Binary64)
deriving DecidableEq

/-- A document, or a part of one. -/
inductive Json
  | null
  | bool (b : Bool)
  | number (n : JsonNumber)
  | string (text : String)
  | array (items : List Json)
  | object (members : List (String × Json))

end ArgumentContract
