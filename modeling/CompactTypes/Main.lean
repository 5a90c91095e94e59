import CompactTypes.Program

/-!
# The executable

Reads the object file, runs the request of the command line, shows what the run shows, and
stores the file that it leaves.
-/

namespace CompactTypes.Executable

/-- The number of an error of the system, which can be given with its sign turned. -/
def errorNumber (code : UInt32) : Nat :=
  if code.toNat < wordValues 4 / 2 then code.toNat else wordValues 4 - code.toNat

/-- What a failure of the system means. -/
def systemFailure (e : IO.Error) : ReadFailure :=
  match e with
  | .noFileOrDirectory _ code _ =>
    .system ("No such file or directory (os error " ++ toString (errorNumber code) ++ ")")
  | .permissionDenied _ code _ =>
    .system ("Permission denied (os error " ++ toString (errorNumber code) ++ ")")
  | .inappropriateType _ code details =>
    .system (details ++ " (os error " ++ toString (errorNumber code) ++ ")")
  | other => .system (toString other)

/-- The bytes of a file. -/
def fetch (path : String) : IO (Except ReadFailure ByteArray) := do
  try
    return .ok (← IO.FS.readBinFile path)
  catch e =>
    return .error (systemFailure e)

/-- Stores bytes in a file. -/
def storeFile (path : String) (bytes : ByteArray) : IO (Except ReadFailure Unit) := do
  try
    IO.FS.writeBinFile path bytes
    return .ok ⟨⟩
  catch e =>
    return .error (systemFailure e)

/-- Shows what a run shows. -/
def showRun (run : Run) : IO UInt32 := do
  IO.print run.output
  for line in run.errorLines do
    IO.eprintln line
  return run.status.toUInt32

/-- Does what the options ask for. -/
def runOptions (o : Options) : IO UInt32 := do
  let preparation := o.prepare (← fetch o.file)
  let storing ← match preparation.ending with
    | .store path bytes => storeFile path bytes
    | _ => pure (.ok ⟨⟩)
  showRun (preparation.complete (LogLevel.ofVerbosity o.verbosity) storing)

/-- Does what the arguments ask for. -/
def runArguments (arguments : List String) : IO UInt32 :=
  match CommandLine.parse arguments with
  | .run o => runOptions o
  | request => showRun (request.perform (fun _ => .ok .empty) (fun _ => .ok ⟨⟩))

end CompactTypes.Executable

/-- The program. -/
def main (arguments : List String) : IO UInt32 :=
  CompactTypes.Executable.runArguments arguments
