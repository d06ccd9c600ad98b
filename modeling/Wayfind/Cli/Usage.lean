/-
What the program says when it is asked for help.

Names stand in a column as wide as the longest of them, and notes in a column to the
right.  A switch that is read from the environment tells the value it has there.
-/
import Wayfind.Cli.Command

namespace Wayfind.Cli

/-- The name of the program. -/
def programName : String := "chaser-locator"

/-- The answer to a question for the version. -/
def versionText : String := programName ++ " 0.1.0\n"

/-- A text with spaces after it, to a width. -/
def padded (width : Nat) (text : String) : String :=
  text ++ String.ofList (List.replicate (width - text.length) ' ')

/-- Lines of two columns. -/
def columns (rows : List (String × String)) : String :=
  let width := (rows.map fun (name, _) => name.length).foldl max 0
  String.join (rows.map fun (name, note) => "  " ++ padded width name ++ "  " ++ note ++ "\n")

/-- A section under its title, unless it is empty. -/
def titled (title : String) (rows : List (String × String)) : String :=
  if rows.isEmpty then "" else "\n" ++ title ++ ":\n" ++ columns rows

/-- How the value of a switch is written. -/
def valueName (long : String) : String := "<" ++ String.ofList (long.toList.map Char.toUpper) ++ ">"

/-- The names of a switch. -/
def Switch.names (s : Switch) : String :=
  let short := match s.short with
    | some c => String.ofList ['-', c] ++ ", "
    | none => "    "
  short ++ "--" ++ s.long ++ (if s.accepts.isSome then " " ++ valueName s.long else "")

/-- The switches of a command, help and version among them. -/
def switchRows (g : Grammar) (extra : String → String) : List (String × String) :=
  g.switches.map (fun s => (s.names, s.note ++ extra s.long)) ++ [("-h, --help", "Print help")] ++
    (if g.versioned then [("-V, --version", "Print version")] else [])

/-- The usage of a command. -/
def usageLine (path : String) (g : Grammar) (rest : String) : String :=
  "Usage: " ++ path ++ (if g.switches.isEmpty then "" else " [OPTIONS]") ++ rest ++
    String.join (g.arguments.map fun a => " <" ++ a ++ ">") ++ "\n"

/-- A note above the usage, unless it is empty. -/
def heading (about : String) : String := if about = "" then "" else about ++ "\n\n"

/-- The note of the command that gives help. -/
def helpAbout : String := "Print this message or the help of the given subcommand(s)"

/-- What a switch of the program has in the environment. -/
def environmentNote (environment : Environment) (long : String) : String :=
  if long = "endpoint" then
    " [env: CHASER_CDP_ENDPOINT=" ++ (environment "CHASER_CDP_ENDPOINT").getD "" ++ "]"
  else ""

/-- Help on the program: its commands say what it is for. -/
def programHelp (environment : Environment) : String :=
  usageLine programName programGrammar " <COMMAND>" ++
  titled "Commands" (entries.map (fun e => (e.name, e.about)) ++ [(helpName, helpAbout)]) ++
  titled "Options" (switchRows programGrammar (environmentNote environment))

/-- Help on a command. -/
def commandHelp (e : Entry) : String :=
  heading e.about ++ usageLine (programName ++ " " ++ e.name) e.grammar "" ++
  titled "Arguments" (e.grammar.arguments.map fun a => ("<" ++ a ++ ">", "")) ++
  titled "Options" (switchRows e.grammar fun _ => "")

/-- Help on the command that gives help. -/
def helpHelp : String :=
  heading helpAbout ++ "Usage: " ++ programName ++ " " ++ helpName ++ " [COMMAND]...\n" ++
  titled "Arguments" [("[COMMAND]...", "Print help for the subcommand(s)")]

/-- Help on a command, or on the program. -/
def helpText (environment : Environment) : Option String → String
  | none => programHelp environment
  | some name =>
    match entries.find? (·.name == name) with
    | some e => commandHelp e
    | none => helpHelp

end Wayfind.Cli
