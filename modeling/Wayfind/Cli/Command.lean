/-
The commands of the program, and how they stand on a command line.
-/
import Wayfind.Cli.Grammar
import Wayfind.Config
import Wayfind.Page.Side

namespace Wayfind.Cli

/-- What the program is asked to do. -/
inductive Command where
  /-- Tell how a selector is read. -/
  | parse (selector : String)
  /-- Tell the dialect of a selector. -/
  | resolve (selector : String)
  | wait (selector : String) (visibility : Option Visibility)
  | click (selector : String) (options : ClickOptions)
  | hover (selector : String)
  | fill (selector value : String)
  | scroll (selector : String) (top left : Option Float)

/-- What stands on a command line. -/
structure Arguments where
  configFile : Option String
  endpoint : Option String
  timeout : Option Nat
  command : Command

/-! ### Values -/

/-- Digits with at most a sign in front: whether it is a minus, and the digits. -/
def signed (cs : List Char) : Bool × List Char :=
  match cs with
  | '-' :: rest => (true, rest)
  | '+' :: rest => (false, rest)
  | cs => (false, cs)

/-- A natural number of 32 bits in decimal digits, with at most a sign in front. -/
def readNat32 (text : String) : Option Nat :=
  let (negative, digits) := signed text.toList
  if digits ≠ [] && digits.all Char.isDigit then
    let n := Toml.number 10 digits
    if (if negative then n = 0 else n < UInt32.size) then some n else none
  else none

/-- The double of decimal digits with a point after some of them, times a power of ten. -/
def decimal (whole fraction : List Char) (exponent : Int) : Float :=
  let digits := Toml.number 10 (whole ++ fraction)
  let power : Int := exponent - fraction.length
  if digits = 0 then 0
  else if power < -400 - (whole.length + fraction.length : Int) then 0
  else if power > 400 then 1.0 / 0.0
  else Float.ofScientific digits (power < 0) power.natAbs

/-- The exponent of a number, zero where there is none. -/
def readExponent : List Char → Option Int
  | [] => some 0
  | c :: rest =>
    let (negative, digits) := signed rest
    if c.toLower = 'e' && digits ≠ [] && digits.all Char.isDigit then
      let n : Int := Toml.number 10 digits
      some (if negative then -n else n)
    else none

/-- The magnitude of a number in decimal notation: digits on at least one side of a point. -/
def readMagnitude (cs : List Char) : Option Float :=
  let whole := cs.takeWhile Char.isDigit
  let rest := cs.dropWhile Char.isDigit
  let (fraction, rest) := match rest with
    | '.' :: more => (more.takeWhile Char.isDigit, more.dropWhile Char.isDigit)
    | rest => ([], rest)
  if whole = [] && fraction = [] then none
  else (readExponent rest).map (decimal whole fraction)

/-- A double in decimal notation, or by name: `inf`, `infinity`, `nan`, in any case. -/
def readFloat (text : String) : Option Float :=
  let (negative, cs) := signed text.toList
  let magnitude := match String.ofList (cs.map Char.toLower) with
    | "inf" | "infinity" => some (1.0 / 0.0)
    | "nan" => some (0.0 / 0.0)
    | _ => readMagnitude cs
  magnitude.map fun m => if negative then -m else m

/-- The buttons that may be named. -/
def buttons : List MouseButton := [.left, .right, .middle]

/-- A button by its name. -/
def readButton (text : String) : Option MouseButton := buttons.find? (·.name == text)

/-! ### Grammars -/

/-- A switch with a value. -/
def Switch.valued {α : Type} (long : String) (read : String → Option α) (note : String) : Switch :=
  ⟨long, none, some fun text => (read text).isSome, note⟩

/-- A switch without a value. -/
def Switch.plain (long : String) : Switch := ⟨long, none, none, ""⟩

/-- The switches of the program itself. -/
def programGrammar : Grammar where
  switches := [
    ⟨"config", some 'c', some fun _ => true, "TOML configuration file"⟩,
    .valued "endpoint" some "Page-level CDP WebSocket endpoint",
    .valued "timeout" Config.readNat64 "Locator timeout in milliseconds, 0 waits forever"]
  arguments := []
  conflicts := []
  versioned := true

/-- A command under its name. -/
structure Entry where
  name : String
  about : String
  grammar : Grammar
  /-- The command in what was found. -/
  build : Found → Command

/-- The grammar of a command that takes arguments alone. -/
def argumentsOnly (names : List String) : Grammar := ⟨[], names, [], false⟩

/-- Every command. -/
def entries : List Entry := [
  { name := "parse", about := "Print the parse result of a selector"
    grammar := argumentsOnly ["SELECTOR"]
    build := fun f => .parse (f.argument 0) },
  { name := "resolve", about := "Print the dialect and selector a prefixed selector resolves to"
    grammar := argumentsOnly ["SELECTOR"]
    build := fun f => .resolve (f.argument 0) },
  { name := "wait", about := "Wait until the selector matches"
    grammar := ⟨[.plain "visible", .plain "hidden"], ["SELECTOR"], [("visible", "hidden")], false⟩
    build := fun f => .wait (f.argument 0)
      (if f.has "visible" then some .visible else if f.has "hidden" then some .hidden else none) },
  { name := "click", about := ""
    grammar := ⟨[
      .valued "button" readButton "[default: left] [possible values: left, right, middle]",
      .valued "count" readNat32 "[default: 1]",
      .valued "delay" Config.readNat64 "Milliseconds between press and release [default: 0]"],
      ["SELECTOR"], [], false⟩
    build := fun f => .click (f.argument 0) {
      button := ((f.value? "button").bind readButton).getD .left
      count := ((f.value? "count").bind readNat32).getD 1
      delay := ((f.value? "delay").bind Config.readNat64).getD 0
      offset := none } },
  { name := "hover", about := ""
    grammar := argumentsOnly ["SELECTOR"]
    build := fun f => .hover (f.argument 0) },
  { name := "fill", about := ""
    grammar := argumentsOnly ["SELECTOR", "VALUE"]
    build := fun f => .fill (f.argument 0) (f.argument 1) },
  { name := "scroll", about := ""
    grammar := ⟨[.valued "top" readFloat "", .valued "left" readFloat ""], ["SELECTOR"], [], false⟩
    build := fun f => .scroll (f.argument 0) ((f.value? "top").bind readFloat)
      ((f.value? "left").bind readFloat) }]

/-- The name of the command that gives help. -/
def helpName : String := "help"

/-- Finds whom help was asked for. -/
def readHelp : List String → Stop
  | [] => .help none
  | [name] =>
    if name = helpName || entries.any (·.name == name) then .help (some name) else .misuse
  | _ => .misuse

/-- Reads the words behind the name of a command. -/
def readCommand (name : String) (words : List String) : Except Stop Command := do
  match entries.find? (·.name == name) with
  | none => throw .misuse
  | some entry =>
    let (r, _) ← readWords entry.grammar [] (some name) .start words
    return entry.build (← conclude entry.grammar r)

/-- Reads a command line. -/
def Arguments.ofWords (words : List String) : Except Stop Arguments := do
  let names := helpName :: entries.map (·.name)
  match ← readWords programGrammar names none .start words with
  | (_, none) => throw .misuse
  | (r, some (name, rest)) =>
    if name = helpName then throw (readHelp rest)
    let command ← readCommand name rest
    let found ← conclude programGrammar r
    return {
      configFile := found.value? "config"
      endpoint := found.value? "endpoint"
      timeout := (found.value? "timeout").bind Config.readNat64
      command }

end Wayfind.Cli
