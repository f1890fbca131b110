import TruthTables.Command.Run

/-!
# The command line program

    Reads the arguments, the named file and a fresh seed, and writes what
    the run tells.
-/

namespace TruthTables

/-- What is shown to whoever asks for help. -/
def usage : String :=
  "usage: " ++ Command.name ++ " [-h] [-f FILE] [--random] [--seed SEED] [--ascii] " ++
    "[--check-only] [-v] [--debug] [formula]"

/-- The bytes of a file, or why there are none. -/
def openPath (path : String) : IO (Except Command.OpenError (List UInt8)) := do
  try
    return .ok (← IO.FS.readBinFile path).toList
  catch
    | .noFileOrDirectory .. => return .error .absent
    | .inappropriateType _ 21 _ => return .error .isDirectory
    | .inappropriateType .. => return .error .notDirectory
    | .invalidArgument .. => return .error .nameTooLong
    | _ => return .error .denied

/-- Performs a run. -/
def perform (o : Command.Options) : IO UInt32 := do
  let found ←
    match o.file with
    | some (some path) => openPath (Command.plainPath path)
    | _ => pure (.error .absent)
  let seed ← IO.rand 0 (Nat.pow 2 53)
  let surroundings : Command.Surroundings := ⟨fun _ => found, seed⟩
  IO.print (Record.text (Command.written surroundings o))
  return (Command.run surroundings o).exit.code.toUInt32

end TruthTables

/-- Runs the program on its arguments. -/
def main (args : List String) : IO UInt32 := do
  match TruthTables.Command.Options.ofArguments args with
  | .ok o => TruthTables.perform o
  | .error .help => do
      IO.println TruthTables.usage
      return 0
  | .error (.refused e) => do
      IO.eprintln TruthTables.usage
      IO.eprintln (TruthTables.Command.refusal e)
      return 2
