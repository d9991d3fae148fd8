import ArgumentContract.CallStack.Loading
import ArgumentContract.Handling

/-!
# Interceptor sessions

An interceptor is installed on an error channel, and a guard stands for the installation: while
the guard lives, the channel refuses another one.  Guards are kept in named slots.  A session runs
commands on channels, slots and one call stack; a command that fails changes nothing.
-/

namespace ArgumentContract

/-- Changes a function at one point. -/
def assign {κ α : Type} [DecidableEq κ] (f : κ → α) (key : κ) (value : α) : κ → α :=
  fun other => if other = key then value else f other

structure Session where
  /-- Whether a channel has an interceptor. -/
  installed : String → Bool
  /-- The channel of the guard in a slot. -/
  guards : String → Option String
  stack : CallStack

inductive Command
  | install (channel slot : String)
  | release (slot : String)
  | drop (slot : String)
  | handle (slot : String) (signal : Signal)
  /-- Adds a call; the arguments are the text of a list. -/
  | frame (arguments : Option String) (function : String) (scope : Option String)
  | callable (name : String)
  | invocable (name : String)
  | load (document : String)
  | reset
  /-- A step that lacks a field or has it in another shape. -/
  | malformed (field : String)
deriving DecidableEq

inductive Reply
  | installed
  | alreadyInstalled
  | released
  | dropped
  | noGuard
  | handled (result : Except Report Outcome)
  | stack (stack : CallStack)
  | invocable (answer : Bool)
  | argumentsFault (fault : Json.Fault)
  | stackFault (fault : LoadFault)
  | malformed (field : String)

namespace Reply

def isError : Reply → Bool
  | alreadyInstalled | argumentsFault _ | stackFault _ | malformed _ => true
  | _ => false

end Reply

/-- The message of a channel that has an interceptor already. -/
def alreadyInstalledMessage : String := "type-hint interceptor is already installed"

namespace Session

/-- No interceptor, no guard and no call. -/
def initial : Session := ⟨fun _ => false, fun _ => none, CallStack.empty⟩

/-- Ends the life of a guard, which frees its channel. -/
def retire (session : Session) (guard : Option String) : Session :=
  match guard with
  | some channel => { session with installed := assign session.installed channel false }
  | none => session

/-- Installs an interceptor and puts its guard into a slot.  A guard that was in the slot ends its
life afterwards. -/
def install (session : Session) (channel slot : String) : Reply × Session :=
  if session.installed channel then (.alreadyInstalled, session)
  else
    let held := session.guards slot
    let session :=
      { session with
        installed := assign session.installed channel true
        guards := assign session.guards slot (some channel) }
    (.installed, session.retire held)

/-- Takes the guard out of a slot and ends its life. -/
def discard (session : Session) (slot : String) (reply : Reply) : Reply × Session :=
  match session.guards slot with
  | none => (.noGuard, session)
  | some channel =>
      let session := { session with guards := assign session.guards slot none }
      (reply, session.retire (some channel))

def handle (session : Session) (slot : String) (signal : Signal) : Reply × Session :=
  match session.guards slot with
  | none => (.noGuard, session)
  | some _ => (.handled (signal.handle session.stack.view), session)

def withStack (session : Session) (stack : CallStack) : Reply × Session :=
  (.stack stack, { session with stack })

/-- The arguments that a text lists; none without a text. -/
def argumentsOf : Option String → Except Json.Fault (List Value)
  | some text => Value.listOfText text
  | none => .ok []

def step (session : Session) : Command → Reply × Session
  | .install channel slot => session.install channel slot
  | .release slot => session.discard slot .released
  | .drop slot => session.discard slot .dropped
  | .handle slot signal => session.handle slot signal
  | .frame arguments function scope =>
      match argumentsOf arguments with
      | .ok arguments => session.withStack (session.stack.withFrame ⟨function, scope, arguments⟩)
      | .error fault => (.argumentsFault fault, session)
  | .callable name => session.withStack (session.stack.withCallable name)
  | .invocable name => (.invocable (session.stack.isInvocable name), session)
  | .load document =>
      match CallStack.loadText document with
      | .ok stack => session.withStack stack
      | .error fault => (.stackFault fault, session)
  | .reset => session.withStack CallStack.empty
  | .malformed field => (.malformed field, session)

/-- Runs commands one after the other; each reply comes with the state after it. -/
def run (session : Session) : List Command → List (Reply × Session)
  | [] => []
  | command :: rest =>
      let (reply, next) := session.step command
      (reply, next) :: next.run rest

end Session

end ArgumentContract
