import ArgumentContract.CallStack.Loading
import ArgumentContract.CommandLine.Arguments
import ArgumentContract.Message.Document
import ArgumentContract.Report.Document

/-!
# The program

The program handles one message and prints what became of it.  The message is an argument, or the
whole input without the line ends behind it.  Unreadable input comes before an unreadable context
file, and both come before anything about the message.
-/

namespace ArgumentContract.CommandLine

structure Sources where
  input : Except ReadFault String
  file : String → Except ReadFault String

structure Ending where
  code : Nat
  output : String
  errors : String
deriving DecidableEq, Repr

namespace Ending

def printed (code : Nat) (line : String) : Ending := ⟨code, line ++ "\n", ""⟩

def failed (code : Nat) (line : String) : Ending := ⟨code, "", "typehint: " ++ line ++ "\n"⟩

end Ending

/-- A text without the line ends behind it. -/
def trimLineEnds (text : String) : String :=
  String.ofList
    (text.toList.reverse.dropWhile fun c => c == '\r' || c == '\n').reverse

def readMessage (sources : Sources) (argument : String) : Except ReadFault String :=
  if argument = "-" then do return trimLineEnds (← sources.input)
  else .ok argument

/-- The call stack that a context file describes; the empty one without a file. -/
def readContext (sources : Sources) : Option String → Except LoadFault CallStack
  | some path => CallStack.loadFile path (sources.file path)
  | none => .ok CallStack.empty

def emitViolation (message : String) : Ending :=
  match Violation.parse message with
  | .ok violation => .printed 0 violation.toJson.toIndentedText
  | .error rejection => .failed 1 rejection.message

/-- Ends with one on a violation. -/
def exitCode : Except Report Outcome → Nat
  | .ok _ => 0
  | .error _ => 1

/-- The line that tells what became of a signal. -/
def outcomeLine : Except Report Outcome → String
  | .ok outcome => if outcome.isHandled then "handled" else "not handled"
  | .error report => report.message

/-- Prints what is asked for about a signal. -/
def emit (emission : Emission) (signal : Signal) (stack : CallStack) : Ending :=
  let result := signal.handle stack.view
  match emission with
  | .parsed => emitViolation signal.message
  | .json => .printed (exitCode result) (resultJson result).toText
  | .outcome => .printed (exitCode result) (outcomeLine result)

def Request.run (request : Request) (sources : Sources) : Ending :=
  match readMessage sources request.message with
  | .error fault => .failed 2 ("error: stdin: " ++ fault.message)
  | .ok message =>
      match readContext sources request.context with
      | .error fault => .failed 2 ("error: " ++ fault.message)
      | .ok stack => emit request.emission ⟨request.severity, message⟩ stack

/-- How the program ends without looking into a message.  Usage and help are explained by the
outer layer. -/
def Refusal.ending : Refusal → Ending
  | usage => ⟨2, "", ""⟩
  | version => .printed 0 "typehint 0.1.0"
  | help => ⟨0, "", ""⟩

def run (arguments : List String) (sources : Sources) : Ending :=
  match Request.ofArguments arguments with
  | .ok request => request.run sources
  | .error refusal => refusal.ending

end ArgumentContract.CommandLine
