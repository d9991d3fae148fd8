import ArgumentContract.CallStack.Consultation
import ArgumentContract.Contract
import ArgumentContract.Message.Violation

/-!
# Resolving violations

A reported violation need not be one.  The expected type name is folded to a contract and tried
against the name of the given type first.  Where the contract needs the value itself, the value is
looked up: the innermost call of the function decides, even if it lacks the argument.  The active
calls are not consulted for any other contract.
-/

namespace ArgumentContract

/-- How a violation was found to be none. -/
inductive Basis
  /-- By the name of the given type. -/
  | simple
  /-- By the value of the argument. -/
  | complex
deriving DecidableEq, Repr

/-- Whether a reported violation is one. -/
inductive Verdict
  | satisfied (basis : Basis)
  /-- The contract is not met; `none` if the expected type name stands for no contract. -/
  | mismatch (expected : Option Contract)
deriving DecidableEq, Repr

/-- Whether a call can be the one that a violation is about: the functions agree, and so do the
scopes if the call names one. -/
def Frame.isCallOf (frame : Frame) (violation : Violation) : Bool :=
  frame.function == violation.function &&
    (frame.scope.isNone || frame.scope == violation.scope)

namespace Violation

/-- The argument that a violation is about, taken from the innermost call of its function. -/
def argument? (violation : Violation) (frames : List Frame) : Option Value :=
  match frames.find? (·.isCallOf violation) with
  | some frame => frame.arguments[violation.index.offset]?
  | none => none

end Violation

/-- Whether a value meets a contract that needs it. -/
def Contract.isMetBy (contract : Contract) (argument : Value) : Consultation Bool :=
  match contract with
  | .numeric => .decided argument.isNumeric
  | .callable => argument.isCallable
  | _ => .decided false

namespace Violation

def tryArgument (violation : Violation) (contract : Contract) : Consultation Bool :=
  .askFrames fun frames =>
    match violation.argument? frames with
    | some argument => contract.isMetBy argument
    | none => .decided false

def resolve (violation : Violation) : Consultation Verdict :=
  match Contract.ofDeclared? violation.expected with
  | none => .decided (.mismatch none)
  | some contract =>
      if contract.admits violation.given then
        .decided (.satisfied .simple)
      else if contract.needsValue then
        (violation.tryArgument contract).map fun met =>
          if met then .satisfied .complex else .mismatch (some contract)
      else .decided (.mismatch (some contract))

end Violation

end ArgumentContract
