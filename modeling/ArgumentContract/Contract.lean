/-!
# Declared contracts

A declaration names the contract that its arguments have to meet: a runtime type or one of the
pseudo-types that cover several.  Some contracts go by aliases.  Most are decided by the name of
the runtime type alone; two of them need the value itself.
-/

namespace ArgumentContract

/-- What a declared argument type can ask for. -/
inductive Contract
  | boolean
  | integer
  | double
  | string
  | resource
  | number
  /-- Booleans, numbers and strings. -/
  | scalar
  /-- Numbers, and strings that denote one. -/
  | numeric
  | callable
  | mixed
deriving DecidableEq, Repr

namespace Contract

/-- All contracts, in the order in which they are listed to a reader. -/
def all : List Contract :=
  [boolean, integer, double, string, resource, number, scalar, numeric, callable, mixed]

def name : Contract → String
  | boolean => "boolean"
  | integer => "integer"
  | double => "double"
  | string => "string"
  | resource => "resource"
  | number => "number"
  | scalar => "scalar"
  | numeric => "numeric"
  | callable => "callable"
  | mixed => "mixed"

/-- The contract of a declared type name, which may be an alias.  Case matters. -/
def ofDeclared? : String → Option Contract
  | "boolean" | "bool" => some boolean
  | "integer" | "int" => some integer
  | "double" | "float" | "real" => some double
  | "string" => some string
  | "resource" => some resource
  | "number" => some number
  | "scalar" => some scalar
  | "numeric" => some numeric
  | "callable" => some callable
  | "mixed" => some mixed
  | _ => none

/-- The contract with exactly this canonical name. -/
def ofName? (text : String) : Option Contract := all.find? (·.name = text)

/-- Whether the runtime type name alone never decides. -/
def needsValue : Contract → Bool
  | numeric | callable => true
  | _ => false

/-- Whether every value of a runtime type with this name meets the contract. -/
def admits (contract : Contract) (given : String) : Bool :=
  match contract with
  | boolean | integer | double | string | resource => given == contract.name
  | number => given == "integer" || given == "double"
  | scalar =>
      given == "boolean" || given == "integer" || given == "double" || given == "string"
  | mixed => true
  | numeric | callable => false

/-- How a report states the contract. -/
def phrase : Contract → String
  | number => "a number"
  | scalar => "a scalar"
  | numeric => "a numeric value"
  | callable => "callable"
  | contract => "of the type " ++ contract.name

theorem ofName?_name (contract : Contract) : ofName? contract.name = some contract := by
  cases contract <;> decide

end Contract

end ArgumentContract
