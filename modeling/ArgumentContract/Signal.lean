/-!
# Signals

A message arrives with a severity.  Hosts give it as a numeric code, of which exactly one stands
for recoverable errors; these are the only ones that are looked into.
-/

namespace ArgumentContract

inductive Severity
  | recoverable
  | other
deriving DecidableEq, Repr

namespace Severity

def all : List Severity := [recoverable, other]

def name : Severity → String
  | recoverable => "recoverable"
  | other => "other"

def ofName? (text : String) : Option Severity := all.find? (·.name = text)

/-- The code of recoverable errors. -/
def recoverableCode : Int := 4096

def ofCode (code : Int) : Severity :=
  if code = recoverableCode then recoverable else other

end Severity

structure Signal where
  severity : Severity
  message : String
deriving DecidableEq, Repr

/-- Whether a signal is looked into at all. -/
def Signal.isAccepted (signal : Signal) : Bool := signal.severity = .recoverable

end ArgumentContract
