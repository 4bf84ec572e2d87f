import MessagePattern.Command.Run

/-!
The command line: reads what the arguments ask for, runs the program and writes what it says.
-/

open MessagePattern

/-- The failure that an error of the operating system stands for. -/
def accessFailure : IO.Error → Source.AccessFailure
  | .noFileOrDirectory .. => .notFound
  | .inappropriateType _ code _ => if code = 20 then .notDirectory else .isDirectory
  | .permissionDenied .. => .permissionDenied
  | .invalidArgument .. => .invalidInput
  | _ => .other

/-- The content of a file, or why it could not be read. -/
def readContent (file : String) : IO (String × Except Source.AccessFailure ByteArray) := do
  try
    return (file, .ok (← IO.FS.readBinFile file))
  catch error =>
    return (file, .error (accessFailure error))

/-- Runs the program on the files that the arguments name. -/
def main (arguments : List String) : IO UInt32 := do
  let invocation := (Command.Invocation.ofArguments arguments).toOption.getD .usage
  let input ←
    if invocation.file? = some Source.standardInput then (← IO.getStdin).readBinToEnd
    else pure .empty
  let contents ← (invocation.rules?.toList ++ invocation.file?.toList).mapM readContent
  let surroundings : Source.Surroundings :=
    ⟨input, fun file => (contents.lookup file).getD (.error .notFound)⟩
  let outcome := Command.runArguments surroundings arguments
  (← IO.getStdout).putStr outcome.output
  (← IO.getStderr).putStr outcome.errors
  return outcome.code.toUInt32
