import PatternMachine.CommandLine.Outcome

/-!
# The line scanner

Reads the command line, the files it names and, if it asks for it, the standard input, and writes
the outcome to the two output streams. There is no calendar here: lines of the log bear the time
that the machine's own clock shows.
-/

namespace PatternMachine.CommandLine

partial def readAllBytes (stream : IO.FS.Stream) (before : ByteArray) : IO ByteArray := do
  let chunk ← stream.read 65536
  if chunk.isEmpty then return before else readAllBytes stream (before ++ chunk)

/-- What the system says about a file that it does not read. -/
def sourceOfError (error : IO.Error) : Source :=
  match error with
  | .noFileOrDirectory _ _ _ => .missing
  | .inappropriateType _ code reason => .refused code.toNat reason
  | .permissionDenied _ code reason => .refused code.toNat reason
  | .resourceExhausted _ code reason => .refused code.toNat reason
  | .invalidArgument _ code reason => .refused code.toNat reason
  | other => .refused 5 (toString other)

def readSource (name : String) : IO Source := do
  try
    return .content (← IO.FS.readBinFile name).toList
  catch error =>
    return sourceOfError error

/-- What a request needs to read. -/
def worldOf (request : Request) : IO World := do
  let named := request.inputs.filter fun name => name ≠ World.stdinName
  let sources ← named.mapM fun name => do
    return (name, ← readSource name)
  let stdin ←
    if request.inputs.contains World.stdinName then
      readAllBytes (← IO.getStdin) .empty
    else pure .empty
  return { file := fun name => (sources.lookup name).getD .missing, stdin := .ofBytes stdin.toList }

def timeOfDay (seconds : Nat) : String :=
  let twoDigits (number : Nat) : String :=
    String.ofList (Text.padZeros 2 (Nat.toDigits 10 number))
  twoDigits (seconds / 3600 % 24) ++ ":" ++ twoDigits (seconds / 60 % 60) ++ ":" ++
    twoDigits (seconds % 60)

/-- What the files and the standard input hold for a command line. -/
def worldFor (arguments : List String) : IO World := do
  match Request.ofWords arguments with
  | .ok request => if request.settings.dump then return {} else worldOf request
  | .error _ => return {}

end PatternMachine.CommandLine

open PatternMachine.CommandLine

def main (arguments : List String) : IO UInt32 := do
  let world ← worldFor arguments
  let time := timeOfDay ((← IO.monoMsNow) / 1000)
  match Outcome.ofWords (fun _ => time) world arguments with
  | .usage error =>
      (← IO.getStderr).putStr (usageText ++ programName ++ ": error: " ++ error.message ++ "\n")
      return 2
  | .done code stdout stderr =>
      (← IO.getStdout).putStr stdout
      (← IO.getStderr).putStr stderr
      return UInt32.ofNat code
  | .aborted abort =>
      (← IO.getStderr).putStr (abort.message ++ "\n")
      return 1
