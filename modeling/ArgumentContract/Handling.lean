import ArgumentContract.Message.Grammar
import ArgumentContract.Report.Basic
import ArgumentContract.Resolution

/-!
# Handling signals

A signal is passed by if its severity is not the handled one or if its message reports no
violation.  Otherwise the violation is resolved: it is suppressed if the contract is met after
all, and reported if not.
-/

namespace ArgumentContract

/-- What becomes of a signal that raises nothing. -/
inductive Outcome
  | notApplicable
  | unparsed
  | suppressed (basis : Basis)
deriving DecidableEq, Repr

/-- Whether the host should leave the signal alone. -/
def Outcome.isHandled : Outcome → Bool
  | suppressed _ => true
  | _ => false

/-- Handles a signal while the given calls are active. -/
def Signal.handle (signal : Signal) (view : CallView) : Except Report Outcome :=
  if signal.isAccepted then
    match Violation.parse signal.message with
    | .error _ => .ok .unparsed
    | .ok violation =>
        match violation.resolve.result view with
        | .satisfied basis => .ok (.suppressed basis)
        | .mismatch expected => .error (Report.of expected signal)
  else .ok .notApplicable

end ArgumentContract
