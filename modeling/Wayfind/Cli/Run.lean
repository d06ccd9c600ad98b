/-
A run of the program, from the words on its command line to its exit code.

The code is 0 for success, 1 for a failure and 2 for a command line that is wrong.  Two
commands only look at a selector; the others connect to a page, act on it with a
locator, and close the connection.
-/
import Wayfind.Activity.Session
import Wayfind.Cli.Usage
import Wayfind.Remote.Dispatch
import Wayfind.Selector.Parse

namespace Wayfind.Cli

open PageSide (Action)
open Remote (Peer World)

/-- What surrounds the program. -/
structure Surroundings (P : Peer) where
  files : Files
  environment : Environment
  /-- Connects to an endpoint; a command then has so many milliseconds. -/
  connect : String → Nat → Except Error P.State

/-- What a run leaves behind. -/
structure Report (P : Peer) where
  code : Nat
  output : String
  /-- Why the run failed. -/
  failure : Option Error
  /-- The peer, when a connection was made. -/
  peer : Option P.State

namespace Report

variable {P : Peer}

/-- A run that succeeded. -/
def success (output : String) : Report P := ⟨0, output, none, none⟩

/-- A run that failed. -/
def failed (e : Error) : Report P := ⟨1, "", some e, none⟩

end Report

/-- The settings of a run: a file, the environment, and the command line over both. -/
def settings (files : Files) (environment : Environment) (args : Arguments) : Except Error Config := do
  let base ← match args.configFile with
    | some path => Config.ofFile files path
    | none => pure .default
  let c ← base.withEnvironment environment
  return { c with
    endpoint := args.endpoint.getD c.endpoint
    defaultTimeout := args.timeout.getD c.defaultTimeout }

/-- A number as people read it. -/
def plainNumber (f : Float) : String :=
  if f.isNaN then "NaN"
  else if f.isInf then (if f < 0 then "-inf" else "inf")
  else String.ofList (Decimal.plainText f)

/-- Does on the page what the program is asked to do, and says so. -/
def Command.perform (patience timeout : Nat) : Command → Remote.side.Action String := fun command => do
  let browser := Remote.browser patience
  let locator (selector : String) : Locator Remote.side.Page :=
    (Locator.ofSelector (P := Remote.side.Page) () selector).set (.timeout timeout)
  match command with
  | .parse _ | .resolve _ => return ""
  | .wait selector visibility =>
    let l := match visibility with
      | some v => (locator selector).set (.visibility (some v))
      | none => locator selector
    l.wait browser none
    return "Found " ++ selector ++ "\n"
  | .click selector options =>
    (locator selector).perform browser (.click options) none
    return "Clicked " ++ selector ++ "\n"
  | .hover selector =>
    (locator selector).perform browser .hover none
    return "Hovered " ++ selector ++ "\n"
  | .fill selector value =>
    (locator selector).perform browser (.fill value) none
    return "Filled " ++ selector ++ "\n"
  | .scroll selector top left =>
    (locator selector).perform browser (.scroll top left) none
    let (x, y) ← browser.pages.scrollPosition ()
    return "Scrolled " ++ selector ++ " (page at " ++ plainNumber x ++ ", " ++ plainNumber y ++ ")\n"

/-- What a visit to a page leaves behind: what was said, and the outcome of closing. -/
def visit (bundle : Except Error String) (patience timeout : Nat) (command : Command) :
    Remote.side.Action (String × Except Error Unit) := do
  Remote.attach bundle
  let said ← command.perform patience timeout
  let closed ← Action.attempt Remote.close
  return (said, closed)

/-- Carries out a command on a page. -/
def onPage {P : Peer} (budget patience : Nat) (s : Surroundings P) (c : Config) (command : Command) :
    Report P :=
  match s.connect c.endpoint (1000 * c.commandTimeout) with
  | .error e => .failed e
  | .ok peer =>
    let start : Activity.Timeline Remote.side.signature (World P) := .init (.init peer "")
    let main := visit (c.utilitySource s.files) patience c.defaultTimeout command
    let (outcome, after) := start.run (Remote.backend P patience) budget main.outcome
    let report : Report P := match outcome with
      | some (.ok (said, .ok ())) => .success said
      | some (.ok (said, .error e)) => { Report.failed e with output := said }
      | some (.error e) => .failed e
      | none => .failed (.internal "The run did not end")
    { report with peer := some after.world.peer }

/-- Carries out a command with settings. -/
def carryOut {P : Peer} (budget patience : Nat) (s : Surroundings P) (c : Config) :
    Command → Report P
  | .parse selector => .success ((Selector.parse selector).report.pretty ++ "\n")
  | .resolve selector =>
    let (handler, rest) := Query.Registry.empty.resolve selector
    .success (handler.dialect.name ++ "\t" ++ rest ++ "\n")
  | command => onPage budget patience s c command

/-- Runs the program. -/
def run {P : Peer} (budget patience : Nat) (s : Surroundings P) (words : List String) : Report P :=
  match Arguments.ofWords words with
  | .error .misuse => ⟨2, "", none, none⟩
  | .error (.help command) => .success (helpText s.environment command)
  | .error .version => .success versionText
  | .ok args =>
    match settings s.files s.environment args with
    | .error e => .failed e
    | .ok c => carryOut budget patience s c args.command

end Wayfind.Cli
