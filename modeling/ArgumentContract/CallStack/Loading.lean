import ArgumentContract.CallStack.Document

/-!
# Loading call stacks from files

A call stack is loaded from the UTF-8 text of a file.  Loading fails if the file cannot be read or
if its text describes no call stack.
-/

namespace ArgumentContract

/-- Why a file or an input stream yields no text. -/
inductive ReadFault
  | notFound
  | isDirectory
  | notUtf8
  /-- Any other reason, in the words of the system. -/
  | refused (reason : String)
deriving DecidableEq, Repr

def ReadFault.message : ReadFault → String
  | notFound => "No such file or directory (os error 2)"
  | isDirectory => "Is a directory (os error 21)"
  | notUtf8 => "stream did not contain valid UTF-8"
  | refused reason => reason

def textOfBytes (bytes : ByteArray) : Except ReadFault String :=
  match String.fromUTF8? bytes with
  | some text => .ok text
  | none => .error .notUtf8

inductive LoadFault
  | unreadable (path : String) (fault : ReadFault)
  | invalid (fault : Json.Fault)
deriving DecidableEq

def LoadFault.message : LoadFault → String
  | unreadable path fault => path ++ ": " ++ fault.message
  | invalid fault => "invalid call context: " ++ fault.message

namespace CallStack

def loadText (text : String) : Except LoadFault CallStack :=
  match load text with
  | .ok stack => .ok stack
  | .error fault => .error (.invalid fault)

/-- Loads a call stack from what a file turned out to hold. -/
def loadFile (path : String) (content : Except ReadFault String) :
    Except LoadFault CallStack :=
  match content with
  | .ok text => loadText text
  | .error fault => .error (.unreadable path fault)

end CallStack

end ArgumentContract
