import ArgumentContract.Contract
import ArgumentContract.Report.Restatement
import ArgumentContract.Signal

/-!
# Reports

A violation that stands is reported with the contract stated in place of the type name.  If the
type name stands for no contract, the message is passed on as it came.
-/

namespace ArgumentContract

inductive ReportKind
  | confirmedMismatch
  | unrecognizedExpectedType
deriving DecidableEq, Repr

def ReportKind.name : ReportKind → String
  | confirmedMismatch => "confirmed_mismatch"
  | unrecognizedExpectedType => "unrecognized_expected_type"

structure Report where
  kind : ReportKind
  message : String
  severity : Severity
deriving DecidableEq, Repr

def Report.of (expected : Option Contract) (signal : Signal) : Report :=
  match expected with
  | some contract =>
      { kind := .confirmedMismatch
        message := Restatement.restate signal.message contract.phrase
        severity := signal.severity }
  | none =>
      { kind := .unrecognizedExpectedType
        message := signal.message
        severity := signal.severity }

end ArgumentContract
