import ArgumentContract.Signal
import ArgumentContract.Text.Decimal

/-!
# Command-line arguments

Arguments are read from left to right.  An option takes its value from behind an equals sign or
from the next argument, which must not look like an option; a single dash is a value and a message
like any other.  Behind `--` everything is a message.  No option, flag or message may come twice,
and there has to be a message.  A request for the version or for help is granted as soon as it is
reached, whatever follows it.
-/

namespace ArgumentContract.CommandLine

inductive Emission
  | outcome
  | parsed
  | json
deriving DecidableEq, Repr

def Emission.ofName? : String → Option Emission
  | "outcome" => some outcome
  | "parsed" => some parsed
  | "json" => some json
  | _ => none

/-- What the arguments read so far ask for. -/
structure Arguments where
  message : Option String
  severity : Option Severity
  code : Option Int
  context : Option String
  emission : Option Emission
  verbose : Bool
deriving DecidableEq, Repr

/-- Why no message is looked into. -/
inductive Refusal
  | usage
  | version
  | help
deriving DecidableEq, Repr

/-- The options that take a value. -/
inductive ValueOption
  | severity
  | code
  | context
  | emission
deriving DecidableEq, Repr

def ValueOption.ofName? : String → Option ValueOption
  | "severity" => some severity
  | "code" => some code
  | "context" => some context
  | "emit" => some emission
  | _ => none

/-- Digits as a number, if there is at least one and nothing else. -/
def natOfDigits? (digits : List Char) : Option Nat :=
  if !digits.isEmpty && digits.all Char.isDigit then some (Text.decimalValue digits) else none

/-- A signed 64-bit integer in decimal, with an optional sign. -/
def codeOfText? (text : String) : Option Int :=
  let signed := match text.toList with
    | '-' :: digits => (natOfDigits? digits).map fun n : Nat => -(n : Int)
    | '+' :: digits => (natOfDigits? digits).map Int.ofNat
    | digits => (natOfDigits? digits).map Int.ofNat
  signed.filter fun n => -0x8000000000000000 ≤ n && n ≤ 0x7fffffffffffffff

namespace Arguments

def none : Arguments := ⟨.none, .none, .none, .none, .none, false⟩

/-- Sets an option that is not set yet to a valid value. -/
def setOption (arguments : Arguments) (option : ValueOption) (value : String) :
    Except Refusal Arguments :=
  match option with
  | .severity =>
      match arguments.severity, Severity.ofName? value with
      | .none, some severity => .ok { arguments with severity := some severity }
      | _, _ => .error .usage
  | .code =>
      match arguments.code, codeOfText? value with
      | .none, some code => .ok { arguments with code := some code }
      | _, _ => .error .usage
  | .context =>
      if arguments.context.isSome || value.isEmpty then .error .usage
      else .ok { arguments with context := some value }
  | .emission =>
      match arguments.emission, Emission.ofName? value with
      | .none, some emission => .ok { arguments with emission := some emission }
      | _, _ => .error .usage

/-- Sets a flag that is not set yet, or grants a request. -/
def setFlag (arguments : Arguments) (name : String) : Except Refusal Arguments :=
  match name with
  | "verbose" =>
      if arguments.verbose then .error .usage else .ok { arguments with verbose := true }
  | "version" => .error .version
  | "help" => .error .help
  | _ => .error .usage

def setMessage (arguments : Arguments) (message : String) : Except Refusal Arguments :=
  match arguments.message with
  | .none => .ok { arguments with message := some message }
  | some _ => .error .usage

end Arguments

inductive Argument
  | message (text : String)
  /-- A name behind two dashes, with the text behind an equals sign. -/
  | long (name : String) (value : Option String)
  /-- Characters behind one dash. -/
  | short (letters : List Char)
  | separator
deriving DecidableEq, Repr

/-- The text behind the first equals sign, if there is one. -/
def valueBehindEquals (text : List Char) : Option String :=
  match text.dropWhile (· ≠ '=') with
  | [] => none
  | _ :: value => some (String.ofList value)

def Argument.ofText (text : String) : Argument :=
  match text.toList with
  | ['-', '-'] => separator
  | '-' :: '-' :: rest =>
      long (String.ofList (rest.takeWhile (· ≠ '='))) (valueBehindEquals rest)
  | '-' :: c :: rest => short (c :: rest)
  | _ => message text

/-- The refusal that short flags lead to. -/
def refusalOfShort : List Char → Refusal
  | 'V' :: _ => .version
  | 'h' :: _ => .help
  | _ => .usage

/-- Reads arguments behind `--`. -/
def readMessages (arguments : Arguments) : List String → Except Refusal Arguments
  | [] => .ok arguments
  | text :: rest => do readMessages (← arguments.setMessage text) rest

/-- Reads arguments on top of what was read so far. -/
def readArguments (arguments : Arguments) : List String → Except Refusal Arguments
  | [] => .ok arguments
  | text :: rest =>
      match Argument.ofText text with
      | .message message => do readArguments (← arguments.setMessage message) rest
      | .separator => readMessages arguments rest
      | .short letters => .error (refusalOfShort letters)
      | .long name value =>
          match ValueOption.ofName? name, value with
          | some option, some value => do
              readArguments (← arguments.setOption option value) rest
          | some option, none =>
              match rest with
              | [] => .error .usage
              | value :: rest =>
                  match Argument.ofText value with
                  | .message value => do
                      readArguments (← arguments.setOption option value) rest
                  | _ => .error .usage
          | none, none => do readArguments (← arguments.setFlag name) rest
          | none, some _ => .error .usage

/-- What the program is asked to do with one message. -/
structure Request where
  message : String
  severity : Severity
  context : Option String
  emission : Emission
deriving DecidableEq, Repr

/-- The request of the arguments.  A code decides on the severity if there is one. -/
def Request.ofArguments (texts : List String) : Except Refusal Request := do
  let arguments ← readArguments .none texts
  match arguments.message with
  | some message =>
      return {
        message
        severity := match arguments.code with
          | some code => Severity.ofCode code
          | none => arguments.severity.getD .recoverable
        context := arguments.context
        emission := arguments.emission.getD .outcome }
  | none => .error .usage

end ArgumentContract.CommandLine
