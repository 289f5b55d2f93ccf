import TripArchive.Config.Written
import TripArchive.Service

/-!
# The program

Runs the service with the configuration of the working directory and the environment, writes its
log as one JSON value a line, and gives its exit code. No network is built in, so no database
answers and a run ends at the latest when it asks for one.
-/

namespace TripArchive.Program

/-- The configuration file of the working directory, if there is one. -/
def findFile : IO (Option Config.File) := do
  try
    return some (.toml (← IO.FS.readFile "config/trips.toml"))
  catch _ => return none

/-- The variables of the environment that the service knows. -/
def findVariables : IO (List (String × String)) :=
  (Service.filterVariable :: Config.blank.variableNames).filterMapM fun name => do
    return (← IO.getEnv name).map fun value => (name, value)

/-- Runs the service. -/
def run : IO UInt32 := do
  let outcome := Service.run {
    file := ← findFile
    environment := ← findVariables
    portTaken := fun _ => false
    database := fun _ => .silence
    ledger := ⟨none, []⟩
    accepts := fun _ => false
    readable := fun _ => false
    signal := .terminate }
  for line in outcome.lines do
    IO.println line.toJson.text
  if let some failure := outcome.failure then
    IO.eprintln s!"Error: {failure.message}"
  return outcome.exitCode.toUInt32

end TripArchive.Program

/-- Runs the service. -/
def main : IO UInt32 := TripArchive.Program.run
