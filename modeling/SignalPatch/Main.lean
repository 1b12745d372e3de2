import SignalPatch.CommandLine.Outcome

/-!
# The program

The outer layer: it reads the files that the arguments name, asks what the
outcome is, and prints and writes what the outcome says.
-/

namespace SignalPatch

namespace CommandLine

def readContent (path : String) : IO FileContent := do
  try
    return .ok (← IO.FS.readBinFile path)
  catch error =>
    match error with
    | .noFileOrDirectory .. => return .error .notFound
    | error => return .error (.refused error.toString)

def readAll (paths : List String) : IO (List (String × FileContent)) :=
  paths.mapM (fun path => do return (path, ← readContent path))

/-- The surroundings that are found, with the files that the arguments name. -/
def findSurroundings (arguments : List String) : IO Surroundings := do
  let home ← IO.getEnv "HOME"
  let named := (Request.ofArguments? arguments).elim [] Request.reads
  let contents ← readAll ((home.map standardConfigPath).toList ++ named)
  return ⟨fun path => (contents.lookup path).getD (.error .notFound), home,
    .error .noOutputDevice⟩

/-- Write the file of an outcome, if it has one. -/
def writeFile (outcome : Outcome) : IO Outcome := do
  match outcome.file with
  | none => return outcome
  | some (path, bytes) =>
      try
        IO.FS.writeBinFile path bytes.toByteArray
        return outcome
      catch error =>
        return outcome.withoutFile (.refused error.toString)

/-- What the program tells the system in place of being killed. -/
def killedCode : UInt32 :=
  134

/-- Find the outcome of the arguments and bring it about. -/
def perform (arguments : List String) : IO UInt32 := do
  let surroundings ← findSurroundings arguments
  let outcome ← writeFile (outcome surroundings arguments)
  IO.print outcome.output
  unless outcome.complaint.isEmpty do
    IO.eprintln outcome.complaint
  return outcome.status.code?.getD killedCode

end CommandLine

end SignalPatch

def main (arguments : List String) : IO UInt32 :=
  SignalPatch.CommandLine.perform arguments
