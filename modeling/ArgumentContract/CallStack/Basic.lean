import ArgumentContract.CallStack.NameSet
import ArgumentContract.Value.Basic

/-!
# Call stacks

The calls that are active when a violation is reported, innermost first, and the names that can be
called.  Callable names do not depend on the case of ASCII letters: they are registered and looked
up in lower case.

A `CallView` is all that the resolution of a violation gets to see of a call stack.
-/

namespace ArgumentContract

structure Frame where
  function : String
  /-- The enclosing type or module, if the call names one. -/
  scope : Option String
  arguments : List Value

def lowercase (text : String) : String := String.ofList (text.toList.map Char.toLower)

/-- The active calls, innermost first, and the names that can be called. -/
structure CallStack where
  frames : List Frame
  callables : NameSet

/-- What can be asked about the calls that are active. -/
structure CallView where
  frames : List Frame
  invocable : String → Bool

namespace CallStack

def empty : CallStack := ⟨[], NameSet.empty⟩

/-- Adds a call one level further out than those already present. -/
def withFrame (stack : CallStack) (frame : Frame) : CallStack :=
  { stack with frames := stack.frames ++ [frame] }

/-- Registers a name that can be called. -/
def withCallable (stack : CallStack) (name : String) : CallStack :=
  { stack with callables := stack.callables.insert (lowercase name) }

/-- Registers every callable name anew, in lower case. -/
def normalize (stack : CallStack) : CallStack :=
  { stack with callables := stack.callables.map lowercase }

def isInvocable (stack : CallStack) (name : String) : Bool :=
  stack.callables.contains (lowercase name)

def view (stack : CallStack) : CallView := ⟨stack.frames, stack.isInvocable⟩

end CallStack

end ArgumentContract
