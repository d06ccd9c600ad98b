/-
Settings of a client: defaults, a file, and the environment over both.

The environment is laid over the settings one variable after another.  A variable that
cannot be read ends this with an error; the settings laid over before it stay.
-/
import Wayfind.Query.Matcher
import Wayfind.Toml.Text

namespace Wayfind

/-- The settings of a client. -/
structure Config where
  /-- The endpoint of a page target. -/
  endpoint : String
  /-- The time a locator has, in milliseconds; zero for no limit. -/
  defaultTimeout : Nat
  /-- The time a single command has, in seconds. -/
  commandTimeout : Nat
  /-- The path of a bundle that replaces the built-in one. -/
  utilityScript : Option String
  logLevel : String
deriving DecidableEq, Repr

/-- Where files are read from: the text of a path, or the reason why there is none. -/
structure Files where
  read : String → Except String String

/-- The values of environment variables. -/
abbrev Environment := String → Option String

namespace Config

/-- The settings when nothing else is said. -/
def default : Config := {
  endpoint := "ws://localhost:9222/devtools/page"
  defaultTimeout := 30000
  commandTimeout := 30
  utilityScript := none
  logLevel := "info" }

/-- A natural number of 64 bits in decimal digits, with at most a plus in front. -/
def readNat64 (text : String) : Option Nat :=
  let ds := match text.toList with
    | '+' :: rest => rest
    | cs => cs
  if ds ≠ [] && ds.all Char.isDigit then
    let n := Toml.number 10 ds
    if n < UInt64.size then some n else none
  else none

/-- Settings while the environment is laid over them, and the error that ended this. -/
abbrev Overlay := EStateM Error Config

/-- Lays the text of a variable over a setting, when it is set. -/
def layText (env : Environment) (name : String) (set : String → Config → Config) : Overlay Unit :=
  match env name with
  | none => pure ()
  | some text => modify (set text)

/-- Lays the number in a variable over a setting, when it is set. -/
def layNumber (env : Environment) (name : String) (set : Nat → Config → Config) : Overlay Unit :=
  match env name with
  | none => pure ()
  | some text =>
    match readNat64 text with
    | some n => modify (set n)
    | none => throw (.configuration ("Invalid " ++ name))

/-- Lays every variable over its setting, in a fixed order. -/
def layAll (env : Environment) : Overlay Unit := do
  layText env "CHASER_CDP_ENDPOINT" fun text c => { c with endpoint := text }
  layNumber env "CHASER_DEFAULT_TIMEOUT" fun n c => { c with defaultTimeout := n }
  layNumber env "CHASER_COMMAND_TIMEOUT" fun n c => { c with commandTimeout := n }
  layText env "CHASER_UTILITY_SCRIPT" fun text c => { c with utilityScript := some text }
  layText env "CHASER_LOG_LEVEL" fun text c => { c with logLevel := text }

/-- Lays the environment over the settings: the settings after it, and the error that ended it. -/
def overlay (c : Config) (env : Environment) : Config × Option Error :=
  match (layAll env).run c with
  | .ok () after => (after, none)
  | .error e after => (after, some e)

/-- The settings under those of the environment, if all of its variables can be read. -/
def withEnvironment (c : Config) (env : Environment) : Except Error Config :=
  match c.overlay env with
  | (after, none) => .ok after
  | (_, some e) => .error e

/-- The text of a setting, or the given one when the file does not have it. -/
def textFrom (entries : Toml.Entries) (name unset : String) : Option String :=
  match entries.lookup name with
  | none => some unset
  | some (.string text) => some text
  | some _ => none

/-- The number of a setting, or the given one when the file does not have it. -/
def countFrom (entries : Toml.Entries) (name : String) (unset : Nat) : Option Nat :=
  match entries.lookup name with
  | none => some unset
  | some (.integer n) => if 0 ≤ n then some n.toNat else none
  | some _ => none

/-- The settings of a file, with the defaults for those it does not have. -/
def ofEntries? (entries : Toml.Entries) : Option Config := do
  return {
    endpoint := ← textFrom entries "cdp_endpoint" default.endpoint
    defaultTimeout := ← countFrom entries "default_timeout" default.defaultTimeout
    commandTimeout := ← countFrom entries "command_timeout" default.commandTimeout
    utilityScript := ← match entries.lookup "utility_script" with
      | none => some default.utilityScript
      | some (.string path) => some (some path)
      | some _ => none
    logLevel := ← textFrom entries "log_level" default.logLevel }

/-- The settings in the text of a file. -/
def ofText (text : String) : Except Error Config :=
  match (Toml.entries? text).bind ofEntries? with
  | some c => .ok c
  | none => .error (.configuration "Failed to parse config")

/-- The settings in the file at a path. -/
def ofFile (files : Files) (path : String) : Except Error Config :=
  match files.read path with
  | .ok text => ofText text
  | .error reason => .error (.configuration ("Failed to read config file: " ++ reason))

/-- The utility bundle: the text of the configured file, or the built-in one. -/
def utilitySource (files : Files) (c : Config) : Except Error String :=
  match c.utilityScript with
  | none => .ok Query.matcherBundle
  | some path =>
    match files.read path with
    | .ok text => .ok text
    | .error reason =>
      .error (.configuration ("Failed to read utility script " ++ path ++ ": " ++ reason))

end Config

end Wayfind
