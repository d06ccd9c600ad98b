/-
The grammar of a command line.

A command takes switches, some with a value, and arguments by their place.  A value
stands behind an equals sign, directly behind a short name, or in the next word, which
then does not begin with a dash.  Behind a double dash every word is an argument.  A
word that asks for help or for the version ends the reading, unless something before it
was wrong.
-/

namespace Wayfind.Cli

/-- A switch of a command. -/
structure Switch where
  long : String
  short : Option Char
  /-- The values the switch takes; none when it takes no value. -/
  accepts : Option (String → Bool)
  /-- What people are told about it. -/
  note : String

/-- What a command takes. -/
structure Grammar where
  switches : List Switch
  /-- The names of the arguments, all of them required. -/
  arguments : List String
  /-- Switches of which one forbids the other. -/
  conflicts : List (String × String)
  /-- The command tells its version. -/
  versioned : Bool

/-- Why reading ended before its end. -/
inductive Stop where
  /-- The command line is wrong. -/
  | misuse
  /-- Help on a command was asked for; none for the program itself. -/
  | help (command : Option String)
  | version
deriving DecidableEq, Repr

/-- What was found on a command line. -/
structure Found where
  /-- The switches by their long names, with their values, the last first. -/
  switches : List (String × String)
  /-- The arguments, the last first. -/
  arguments : List String
deriving DecidableEq, Repr

namespace Found

/-- Nothing yet. -/
def nothing : Found := ⟨[], []⟩

/-- The value of a switch. -/
def value? (f : Found) (long : String) : Option String := f.switches.lookup long

/-- The switch was given. -/
def has (f : Found) (long : String) : Bool := (f.value? long).isSome

/-- The argument at a place. -/
def argument (f : Found) (place : Nat) : String := (f.arguments.reverse[place]?).getD ""

end Found

/-- A switch whose value is not known to be right yet. -/
structure Pending where
  switch : Switch
  value : Option String

/-- Reading, so far. -/
structure Reading where
  found : Found
  pending : Option Pending

namespace Reading

/-- Nothing read yet. -/
def start : Reading := ⟨.nothing, none⟩

/-- A switch waits for its value. -/
def awaitsValue (r : Reading) : Bool := r.pending.any (·.value.isNone)

/-- Enters a switch, which may be given once. -/
def enter (r : Reading) (long value : String) : Except Stop Reading :=
  if r.found.has long then .error .misuse
  else .ok { r with found := { r.found with switches := (long, value) :: r.found.switches } }

/-- Settles the switch that is pending. -/
def resolve (r : Reading) : Except Stop Reading :=
  match r.pending with
  | none => .ok r
  | some ⟨switch, some value⟩ =>
    if (switch.accepts.getD fun _ => false) value then
      { r with pending := none }.enter switch.long value
    else .error .misuse
  | some ⟨_, none⟩ => .error .misuse

/-- Gives the pending switch its value. -/
def supply (r : Reading) (value : String) : Reading :=
  { r with pending := r.pending.map fun p => { p with value := some value } }

/-- Reads a switch with the value attached to it, if there is one. -/
def switch (r : Reading) (s : Switch) (attached : Option String) : Except Stop Reading := do
  if s.accepts.isNone && attached.isSome then throw .misuse
  let r ← r.resolve
  if s.accepts.isNone then r.enter s.long ""
  else
    let waiting := { r with pending := some ⟨s, attached⟩ }
    if attached.isSome then waiting.resolve else return waiting

/-- Reads an argument. -/
def argument (r : Reading) (g : Grammar) (word : String) : Except Stop Reading := do
  let r ← r.resolve
  if r.found.arguments.length < g.arguments.length then
    return { r with found := { r.found with arguments := word :: r.found.arguments } }
  else throw .misuse

end Reading

/-- A text before its first equals sign, and what stands behind it. -/
def splitAtEquals (cs : List Char) : List Char × Option (List Char) :=
  match cs.dropWhile (· != '=') with
  | [] => (cs, none)
  | _ :: rest => (cs.takeWhile (· != '='), some rest)

/-- Reads a word that begins with two dashes. -/
def readLong (g : Grammar) (command : Option String) (r : Reading) (cs : List Char) :
    Except Stop Reading := do
  let (name, attached) := splitAtEquals cs
  let name := String.ofList name
  if name = "help" || (name = "version" && g.versioned) then
    if attached.isSome then throw .misuse
    let _ ← r.resolve
    throw (if name = "help" then .help command else .version)
  match g.switches.find? (·.long == name) with
  | some s => r.switch s (attached.map String.ofList)
  | none => throw .misuse

/-- The value directly behind a short name. -/
def attachedTo (cs : List Char) : Option String :=
  match cs with
  | [] => none
  | '=' :: rest => some (String.ofList rest)
  | cs => some (String.ofList cs)

/-- Reads the short names in a word that begins with one dash. -/
def readShort (g : Grammar) (command : Option String) (r : Reading) : List Char → Except Stop Reading
  | [] => return r
  | c :: rest => do
    if c = 'h' || (c = 'V' && g.versioned) then
      let _ ← r.resolve
      throw (if c = 'h' then .help command else .version)
    match g.switches.find? (·.short == some c) with
    | none => throw .misuse
    | some s =>
      if s.accepts.isSome then r.switch s (attachedTo rest)
      else readShort g command (← r.switch s none) rest

/-- What a word is. -/
inductive Word where
  | doubleDash
  | long (cs : List Char)
  | short (cs : List Char)
  | plain

/-- Tells words apart; a single dash is a plain word. -/
def Word.of (word : String) : Word :=
  match word.toList with
  | ['-', '-'] => doubleDash
  | '-' :: '-' :: cs => long cs
  | ['-'] => plain
  | '-' :: cs => short cs
  | _ => plain

/-- Reads the words behind a double dash. -/
def readArguments (g : Grammar) (r : Reading) : List String → Except Stop Reading
  | [] => return r
  | word :: rest => do readArguments g (← r.argument g word) rest

/-- Reads words up to one that names a command, if any does: that name, and the words behind it. -/
def readWords (g : Grammar) (commands : List String) (command : Option String) (r : Reading) :
    List String → Except Stop (Reading × Option (String × List String))
  | [] => return (r, none)
  | word :: rest => do
    if !r.awaitsValue && commands.contains word then return (r, some (word, rest))
    match Word.of word with
    | .doubleDash => return (← readArguments g r rest, none)
    | .long cs => readWords g commands command (← readLong g command r cs) rest
    | .short cs => readWords g commands command (← readShort g command r cs) rest
    | .plain =>
      if r.awaitsValue then readWords g commands command (r.supply word) rest
      else readWords g commands command (← r.argument g word) rest

/-- What was found, when nothing is missing and nothing conflicts. -/
def conclude (g : Grammar) (r : Reading) : Except Stop Found := do
  let found := (← r.resolve).found
  if found.arguments.length < g.arguments.length then throw .misuse
  if g.conflicts.any fun (a, b) => found.has a && found.has b then throw .misuse
  return found

end Wayfind.Cli
