/-
The registry of dialects.

A selector names its dialect before the first separator, `=` or `/`.  Built-in names
are tried first, then the registered ones in the order of registration; a selector
that names no known dialect is plain CSS.
-/
import Wayfind.Query.Handler

namespace Wayfind.Query

/-- The dialects registered by name, in order of registration. -/
structure Registry where
  custom : List (String × Handler)
deriving DecidableEq, Repr

/-- The handlers of the built-in names, in the order they are tried. -/
def builtinHandlers : List Handler := [.aria, .pierce, .text, .xpath]

/-- The character ends the name of a dialect. -/
def isSeparator (c : Char) : Bool := c = '=' || c = '/'

/-- The selector behind a name and a separator, when it starts with them. -/
def stripName? (name selector : List Char) : Option (List Char) :=
  if sameName (selector.take name.length) name then
    match selector.drop name.length with
    | c :: rest => if isSeparator c then some rest else none
    | [] => none
  else none

namespace Registry

/-- The registry before any registration. -/
def empty : Registry := ⟨[]⟩

/-- Every name with its handler, in the order they are tried. -/
def entries (r : Registry) : List (String × Handler) :=
  builtinHandlers.map (fun h => (h.dialect.name, h)) ++ r.custom

/-- The handler of a selector, and the selector without the name of its dialect. -/
def resolve (r : Registry) (selector : String) : Handler × String :=
  let found := r.entries.findSome? fun (name, handler) =>
    (stripName? name.toList selector.toList).map fun rest => (handler, String.ofList rest)
  found.getD (Handler.css, selector)

/-- The names of the registered dialects. -/
def names (r : Registry) : List String := r.custom.map (·.1)

/-- A name is made of ASCII letters. -/
def isName (name : String) : Bool :=
  !name.isEmpty && name.toList.all Char.isAlpha

/-- Registers a dialect under a name, from whichever of its scripts were written. -/
def register (r : Registry) (name : String) (one all : Option String) : Except Error Registry :=
  if Dialect.isReserved name then
    .error (.queryHandler ("A query handler named \"" ++ name ++ "\" already exists"))
  else if !isName name then
    .error (.queryHandler "Custom query handler names may only contain [a-zA-Z]")
  else do
    let scripts ← Scripts.ofParts one all
    if r.names.contains name then
      .error (.queryHandler ("Cannot register over existing handler: " ++ name))
    else
      .ok ⟨r.custom ++ [(name, ⟨.custom name, scripts⟩)]⟩

/-- Removes the dialect registered under a name, if there is one. -/
def unregister (r : Registry) (name : String) : Registry :=
  ⟨r.custom.filter fun (existing, _) => existing != name⟩

/-- Removes every registered dialect. -/
def clear (_ : Registry) : Registry := empty

end Registry

end Wayfind.Query
