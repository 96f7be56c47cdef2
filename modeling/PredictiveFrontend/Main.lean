import PredictiveFrontend.Command.Run

/-!
# The command

The command line of the front end over the files of the system.
-/

namespace PredictiveFrontend

/-- The failure that an error of the system means. -/
def ReadFailure.ofError : IO.Error → ReadFailure
  | .noFileOrDirectory .. => .notFound
  | .inappropriateType .. => .isADirectory
  | .noSuchThing .. => .notADirectory
  | e => .other (toString e)

/-- The bytes of a file of the system. -/
def readSystemFile (path : String) : IO (Except ReadFailure (List UInt8)) := do
  try
    return .ok (← IO.FS.readBinFile path).toList
  catch e =>
    return .error (.ofError e)

end PredictiveFrontend

/-- Run a command line and end with its code. -/
def main (args : List String) : IO UInt32 := do
  let outcome ← PredictiveFrontend.runArguments PredictiveFrontend.readSystemFile args
  IO.print outcome.output
  IO.eprint outcome.errors
  return outcome.code.toUInt32
