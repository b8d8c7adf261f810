import TraceAtlas.CommandLine.Execution

/-! # The program

Reads files and prints; all else is decided by `CommandLine.run`.
-/

namespace TraceAtlas

namespace Program

/-- The number of a failure. Some accesses report it with its sign turned around. -/
def errorNumber (code : UInt32) : Nat :=
  if code.toNat < UInt32.size / 2 then code.toNat else UInt32.size - code.toNat

/-- What the operating system says about a failed access, as far as it is told apart. -/
def readError : IO.Error → ReadError
  | .noFileOrDirectory _ code details | .inappropriateType _ code details
  | .permissionDenied _ code details | .invalidArgument _ code details
  | .noSuchThing _ code details | .resourceExhausted _ code details =>
    .system details.capitalize (errorNumber code)
  | other => .system (toString other) 5

/-- Reads a file. -/
def read (path : String) : IO (Except ReadError ByteArray) := do
  try
    return .ok (← IO.FS.readBinFile path)
  catch e =>
    return .error (readError e)

/-- How the program is called. -/
def usage : String :=
  "Usage: jitmap replay [OPTIONS] <SCRIPT>\n" ++
    "       jitmap decode --chain <W,W,...> --offset <N> [OPTIONS]\n"

/-- Prints what an outcome says and gives the exit status. -/
def conclude (outcome : Outcome) : IO UInt32 := do
  match outcome with
  | .printed text => IO.print text
  | .failed cause => IO.eprint cause.report
  | .refused => IO.eprint usage
  | .broken cause => IO.eprintln (cause.message?.getD "broken contract")
  return outcome.status

end Program

end TraceAtlas

/-- Executes the command line and exits with the status of its outcome. -/
def main (words : List String) : IO UInt32 := do
  TraceAtlas.Program.conclude (← TraceAtlas.CommandLine.run TraceAtlas.Program.read words)
