import ArgumentContract.Json.Record
import ArgumentContract.Message.Violation

/-!
# Violations as documents

A violation is a record of its five fields.  Only the value of the argument position is written,
so that reading it back gives its shortest digits.
-/

namespace ArgumentContract

namespace ArgumentIndex

def toJson (index : ArgumentIndex) : Json := .number (.integer index.value)

def read : Json.Reader ArgumentIndex := fun text => do
  let (n, rest) ← Json.readNatural text
  return (ofNat n, rest)

def ofText (text : String) : Except Json.Fault ArgumentIndex :=
  Json.readDocument (fun _ => read) text

end ArgumentIndex

namespace Violation

def record : Json.Record Violation where
  title := "ParsedViolation"
  blank := ⟨.ofNat 0, none, "", "", ""⟩
  fields :=
    [{ name := "argument_index"
       neededInObject := true
       neededInList := true
       read := fun _ violation text => do
         let (index, rest) ← ArgumentIndex.read text
         return ({ violation with index }, rest) },
     { name := "scope_name"
       neededInObject := false
       neededInList := true
       read := fun _ violation text => do
         let (scope, rest) ← Json.readOptional Json.readText text
         return ({ violation with scope }, rest) },
     { name := "function_name"
       neededInObject := true
       neededInList := true
       read := fun _ violation text => do
         let (function, rest) ← Json.readText text
         return ({ violation with function }, rest) },
     { name := "expected_type_name"
       neededInObject := true
       neededInList := true
       read := fun _ violation text => do
         let (expected, rest) ← Json.readText text
         return ({ violation with expected }, rest) },
     { name := "given_type_name"
       neededInObject := true
       neededInList := true
       read := fun _ violation text => do
         let (given, rest) ← Json.readText text
         return ({ violation with given }, rest) }]

def toJson (violation : Violation) : Json :=
  .object
    [("argument_index", violation.index.toJson),
     ("scope_name", match violation.scope with
       | some scope => .string scope
       | none => .null),
     ("function_name", .string violation.function),
     ("expected_type_name", .string violation.expected),
     ("given_type_name", .string violation.given)]

def ofText (text : String) : Except Json.Fault Violation := Json.readDocument record.read text

end Violation

end ArgumentContract
