import ArgumentContract.CommandLine.Program

/-!
# Entry point

Reads what the request needs, runs the program and prints what it leaves behind.
-/

namespace ArgumentContract.CommandLine

def usage : String :=
  "Usage: typehint [--severity recoverable|other] [--code N] [--context FILE] " ++
    "[--emit outcome|parsed|json] [--verbose] [--] MESSAGE"

def readFaultOf : IO.Error → ReadFault
  | .noFileOrDirectory .. => .notFound
  | .inappropriateType .. => .isDirectory
  | error => .refused (toString error)

/-- The bytes of a stream up to its end. -/
partial def readAll (stream : IO.FS.Stream) (read : ByteArray) : IO ByteArray := do
  let chunk ← stream.read 65536
  if chunk.isEmpty then return read
  else readAll stream (read ++ chunk)

def textFrom (action : IO ByteArray) : IO (Except ReadFault String) := do
  try
    return textOfBytes (← action)
  catch error =>
    return .error (readFaultOf error)

def gather (request : Request) : IO Sources := do
  let input ←
    if request.message = "-" then
      textFrom (do readAll (← IO.getStdin) ByteArray.empty)
    else pure (.ok "")
  let content ← match request.context with
    | some path => textFrom (IO.FS.readBinFile path)
    | none => pure (.error .notFound)
  return { input, file := fun _ => content }

/-- Runs the program on the sources of the system. -/
def start (arguments : List String) : IO UInt32 := do
  let ending ← match Request.ofArguments arguments with
    | .ok request => pure (request.run (← gather request))
    | .error refusal => do
        match refusal with
        | .usage => IO.eprintln usage
        | .help => IO.println usage
        | .version => pure ()
        pure refusal.ending
  IO.print ending.output
  IO.eprint ending.errors
  return UInt32.ofNat ending.code

end ArgumentContract.CommandLine

def main (arguments : List String) : IO UInt32 :=
  ArgumentContract.CommandLine.start arguments
