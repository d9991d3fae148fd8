import ArgumentContract.CallStack.Basic
import ArgumentContract.Json.Record
import ArgumentContract.Value.Document

/-!
# Call stacks as documents

A frame is a record of its function, its scope and its arguments, and a call stack a record of its
frames and its callable names.  Everything but the function of a frame may be left out.  Loading a
call stack registers the callable names in lower case; merely reading it keeps them as written.
-/

namespace ArgumentContract

namespace Frame

def record : Json.Record Frame where
  title := "Frame"
  blank := ⟨"", none, []⟩
  fields :=
    [{ name := "function"
       neededInObject := true
       neededInList := true
       read := fun _ frame text => do
         let (function, rest) ← Json.readText text
         return ({ frame with function }, rest) },
     { name := "scope"
       neededInObject := false
       neededInList := false
       read := fun _ frame text => do
         let (scope, rest) ← Json.readOptional Json.readText text
         return ({ frame with scope }, rest) },
     { name := "args"
       neededInObject := false
       neededInList := false
       read := fun depth frame text => do
         let (arguments, rest) ← Json.readList Value.read depth text
         return ({ frame with arguments }, rest) }]

def read (depth : Nat) : Json.Reader Frame := record.read depth

/-- The document of a frame, without the scope of a free function. -/
def toJson (frame : Frame) : Json :=
  let scope := match frame.scope with
    | some scope => [("scope", .string scope)]
    | none => []
  .object ([("function", .string frame.function)] ++ scope ++
    [("args", .array (Value.toItems frame.arguments))])

def ofText (text : String) : Except Json.Fault Frame := Json.readDocument read text

end Frame

namespace CallStack

def record : Json.Record CallStack where
  title := "CallStack"
  blank := empty
  fields :=
    [{ name := "frames"
       neededInObject := false
       neededInList := false
       read := fun depth stack text => do
         let (frames, rest) ← Json.readList Frame.read depth text
         return ({ stack with frames }, rest) },
     { name := "callables"
       neededInObject := false
       neededInList := false
       read := fun depth stack text => do
         let (names, rest) ← Json.readList (fun _ => Json.readText) depth text
         return ({ stack with callables := NameSet.ofList names }, rest) }]

def read (depth : Nat) : Json.Reader CallStack := record.read depth

def toJson (stack : CallStack) : Json :=
  .object
    [("frames", .array (stack.frames.map Frame.toJson)),
     ("callables", .array (stack.callables.names.map .string))]

/-- The call stack that a text describes, with its names as written. -/
def ofText (text : String) : Except Json.Fault CallStack := Json.readDocument read text

/-- The call stack that a text describes, with its names registered in lower case. -/
def load (text : String) : Except Json.Fault CallStack := do
  return (← ofText text).normalize

end CallStack

end ArgumentContract
