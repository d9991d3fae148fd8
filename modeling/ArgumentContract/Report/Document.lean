import ArgumentContract.Handling
import ArgumentContract.Json.Shape

/-!
# Results as documents

Severities and contracts are written by their names.  The result of handling a signal is an object
that tells whether the signal was handled, and the outcome or the report.
-/

namespace ArgumentContract

namespace Severity

def toJson (severity : Severity) : Json := .string severity.name

def ofText (text : String) : Except Json.Fault Severity :=
  Json.readDocument (Json.readVariant ofName? (all.map name)) text

end Severity

namespace Contract

def toJson (contract : Contract) : Json := .string contract.name

def ofText (text : String) : Except Json.Fault Contract :=
  Json.readDocument (Json.readVariant ofName? (all.map name)) text

end Contract

def Basis.name : Basis → String
  | simple => "simple"
  | complex => "complex"

def Outcome.toJson : Outcome → Json
  | notApplicable => .string "not_applicable"
  | unparsed => .string "unparsed"
  | suppressed basis => .object [("suppressed", .string basis.name)]

def Report.toJson (report : Report) : Json :=
  .object
    [("kind", .string report.kind.name),
     ("message", .string report.message),
     ("severity", report.severity.toJson)]

/-- The document of a result, with its keys in alphabetical order. -/
def resultJson : Except Report Outcome → Json
  | .ok outcome => .object [("handled", .bool outcome.isHandled), ("outcome", outcome.toJson)]
  | .error report => .object [("handled", .bool true), ("violation", report.toJson)]

end ArgumentContract
