import ArgumentContract.Message.Index

/-!
# Violations

The five fields of a violation message and the template they fill:

    Argument <index> passed to [<scope>::]<function>() must be an instance of <expected>, <given> given
-/

namespace ArgumentContract

/-- A violation of a declared argument type, as a message reports it. -/
structure Violation where
  index : ArgumentIndex
  /-- The enclosing type or module; free functions have none. -/
  scope : Option String
  function : String
  /-- The type name in the declaration. -/
  expected : String
  /-- The runtime type name of the value that was passed. -/
  given : String
deriving DecidableEq

namespace Violation

/-- The function with its scope in front, if it has one. -/
def qualifiedName (violation : Violation) : String :=
  match violation.scope with
  | some scope => scope ++ "::" ++ violation.function
  | none => violation.function

/-- The message that reports a violation. -/
def render (violation : Violation) : String :=
  "Argument " ++ violation.index.digits
    ++ " passed to " ++ violation.qualifiedName
    ++ "() must be an instance of " ++ violation.expected
    ++ ", " ++ violation.given ++ " given"

end Violation

end ArgumentContract
