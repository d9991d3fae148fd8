import ArgumentContract.Message.Token
import ArgumentContract.Message.Violation

/-!
# Reading violation messages

A message reports a violation if its tokens begin with the template of `Violation.render`.  The
template is anchored at the start of the message; what follows `given` is ignored, even word
characters glued onto it.  A message that departs from the template is rejected with the first
token that cannot stand where it stands.
-/

namespace ArgumentContract

/-- What the template asks for at some place. -/
inductive Expected
  | exactly (token : Token)
  /-- A word whose spelling the template leaves open, at least in part. -/
  | openWord
  /-- What may follow the first word of the callee. -/
  | scopeMarkOrParens
deriving DecidableEq, Repr

/-- Why a message is no violation message. -/
inductive Reason
  /-- Another token, or the end of the message, where the template asks for something. -/
  | unexpected (found : Option Token) (expected : Expected)
  /-- A word that is no run of digits where the argument position belongs. -/
  | notAnIndex (word : String)
  | zeroIndex
deriving DecidableEq, Repr

def Expected.display : Expected → String
  | exactly token => "'" ++ token.display ++ "'"
  | openWord => "something else"
  | scopeMarkOrParens => "'::', or '()'"

def Reason.message : Reason → String
  | unexpected found expected =>
      let shown := match found with
        | some token => "'" ++ token.display ++ "'"
        | none => "end of input"
      "found " ++ shown ++ " expected " ++ expected.display
  | notAnIndex word => "expected an argument index, found `" ++ word ++ "`"
  | zeroIndex => "argument index must be at least 1"

/-- A token stream that departs from the template: the reason, and the tokens from the offending
one on. -/
structure Departure where
  reason : Reason
  unread : List Token
deriving DecidableEq, Repr

/-- A rejected message: the reason, and the place of the offending token. -/
structure Rejection where
  reason : Reason
  span : Span
deriving DecidableEq, Repr

def Rejection.message (rejection : Rejection) : String :=
  "message does not match the violation grammar: " ++ rejection.reason.message

namespace Token

def keyword (text : String) : Token := word text.toList

end Token

namespace Grammar

/-- Departs from the template at the first of the given tokens. -/
def depart {α : Type} (expected : Expected) (stream : List Token) : Except Departure α :=
  .error ⟨.unexpected stream.head? expected, stream⟩

def expect : List Token → List Token → Except Departure (List Token)
  | [], stream => .ok stream
  | token :: wanted, found :: stream =>
      if found = token then expect wanted stream
      else depart (.exactly token) (found :: stream)
  | token :: _, [] => depart (.exactly token) []

def readName : List Token → Except Departure (List Char × List Token)
  | .word letters :: stream => .ok (letters, stream)
  | stream => depart .openWord stream

/-- Reads an argument position, which is at least one. -/
def readIndex (stream : List Token) : Except Departure (ArgumentIndex × List Token) := do
  let (letters, rest) ← readName stream
  match ArgumentIndex.ofDigits? (String.ofList letters) with
  | none => .error ⟨.notAnIndex (String.ofList letters), stream⟩
  | some index =>
      if index.value = 0 then .error ⟨.zeroIndex, stream⟩
      else .ok (index, rest)

/-- Reads a function name with an optional scope, up to the parentheses. -/
def readCallee : List Token → Except Departure ((Option (List Char) × List Char) × List Token)
  | .word function :: .parens :: stream => .ok ((none, function), stream)
  | .word scope :: .scopeMark :: .word function :: .parens :: stream =>
      .ok ((some scope, function), stream)
  | .word _ :: .scopeMark :: .word _ :: stream => depart (.exactly .parens) stream
  | .word _ :: .scopeMark :: stream => depart .openWord stream
  | .word _ :: stream => depart .scopeMarkOrParens stream
  | stream => depart .openWord stream

/-- Reads a word that starts with `given`. -/
def readGiven : List Token → Except Departure Unit
  | .word letters :: stream =>
      if "given".toList <+: letters then .ok ()
      else depart .openWord (.word letters :: stream)
  | stream => depart .openWord stream

def beforeIndex : List Token := [.keyword "Argument", .space]

def beforeCallee : List Token :=
  [.space, .keyword "passed", .space, .keyword "to", .space]

def beforeExpected : List Token :=
  [.space, .keyword "must", .space, .keyword "be", .space, .keyword "an", .space,
    .keyword "instance", .space, .keyword "of", .space]

def beforeGiven : List Token := [.comma, .space]

/-- Reads the template from the start of a token stream. -/
def readViolation (stream : List Token) : Except Departure Violation := do
  let stream ← expect beforeIndex stream
  let (index, stream) ← readIndex stream
  let stream ← expect beforeCallee stream
  let ((scope, function), stream) ← readCallee stream
  let stream ← expect beforeExpected stream
  let (expected, stream) ← readName stream
  let stream ← expect beforeGiven stream
  let (given, stream) ← readName stream
  let stream ← expect [.space] stream
  readGiven stream
  return {
    index
    scope := scope.map String.ofList
    function := String.ofList function
    expected := String.ofList expected
    given := String.ofList given }

end Grammar

/-- The place of the first of the last `unread` tokens of a message; the end of the message if
there are none. -/
def spanOfUnread (message : String) (unread : Nat) : Span :=
  let tokens := tokenize message
  match tokens[tokens.length - unread]? with
  | some found => found.span
  | none =>
      let stop := Text.width message.toList
      ⟨stop, stop⟩

def Violation.parse (message : String) : Except Rejection Violation :=
  match Grammar.readViolation (Token.scan message.toList) with
  | .ok violation => .ok violation
  | .error departure =>
      .error ⟨departure.reason, spanOfUnread message departure.unread.length⟩

end ArgumentContract
