/-
The program at its command line.

Before a run, the files that its settings name are read and the environment is asked;
the run itself decides everything else.  Pages are out of reach here: no endpoint can be
connected to.
-/
import Wayfind.Cli.Run

namespace Wayfind

/-- A peer that nobody is connected to. -/
def Remote.Peer.unreachable : Remote.Peer where
  State := Empty
  command _ _ s := nomatch s
  listen s := nomatch s
  close s := nomatch s

namespace Cli

/-- The variables that settings are read from. -/
def variableNames : List String := [
  "CHASER_CDP_ENDPOINT", "CHASER_DEFAULT_TIMEOUT", "CHASER_COMMAND_TIMEOUT",
  "CHASER_UTILITY_SCRIPT", "CHASER_LOG_LEVEL"]

/-- The values of the variables. -/
def readEnvironment : IO Environment := do
  let values ← variableNames.filterMapM fun name => do
    return (← IO.getEnv name).map fun value => (name, value)
  return fun name => values.lookup name

/-- The text of a file, or the reason why there is none. -/
def readText (path : String) : IO (String × Except String String) := do
  try return (path, .ok (← IO.FS.readFile path))
  catch e => return (path, .error (toString e))

/-- The files that were read. -/
def filesOf (read : List (String × Except String String)) : Files :=
  ⟨fun path => (read.lookup path).getD (.error "not read")⟩

/-- Reads the files that a command line and its settings name. -/
def readFiles (environment : Environment) (words : List String) : IO Files := do
  match Arguments.ofWords words with
  | .error _ => return filesOf []
  | .ok args =>
    let named ← args.configFile.toList.mapM readText
    match settings (filesOf named) environment args with
    | .error _ => return filesOf named
    | .ok c => return filesOf (named ++ (← c.utilityScript.toList.mapM readText))

/-- How often an activity takes a turn, and a loop goes round, before a run is given up. -/
def turnBudget : Nat := 1000000

end Cli

end Wayfind

open Wayfind in
/-- Runs the program with the words on its command line. -/
def main (words : List String) : IO UInt32 := do
  let environment ← Cli.readEnvironment
  let surroundings : Cli.Surroundings Remote.Peer.unreachable := {
    files := ← Cli.readFiles environment words
    environment := environment
    connect := fun _ _ => .error (.webSocket "Failed to connect") }
  let report := Cli.run Cli.turnBudget Cli.turnBudget surroundings words
  IO.print report.output
  match report.failure with
  | some e => IO.eprintln ("Error: " ++ e.message)
  | none => pure ()
  return report.code.toUInt32
