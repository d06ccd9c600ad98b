/-
Reading records out of document trees.

A record is written as an object or as the array of its fields in order.  In an
object, keys of no field are passed over without a look at their values, and no key
of a field may stand twice; in an array, trailing fields may be missing, but there
are no further items.  A reader is told how deep containers may still nest.
-/
import Wayfind.Json.Document

namespace Wayfind.Json

/-- Reads a value out of a tree whose containers may nest at most so deep. -/
abbrev Reader (α : Type) := Nat → Document → Option α

namespace Reader

/-- A string. -/
def string : Reader String
  | _, .string s => s
  | _, _ => none

/-- A boolean. -/
def bool : Reader Bool
  | _, .bool b => some b
  | _, _ => none

/-- An integer between two bounds, ends included. -/
def integer (low high : Int) : Reader Int
  | _, .number (some (.integer n)) => if low ≤ n && n ≤ high then some n else none
  | _, _ => none

/-- An integer of 32 bits with a sign. -/
def int32 : Reader Int := integer (-0x80000000) 0x7FFFFFFF

/-- An integer of 64 bits with a sign. -/
def int64 : Reader Int := integer (-0x8000000000000000) 0x7FFFFFFFFFFFFFFF

/-- An integer of 64 bits without a sign. -/
def nat64 : Reader Nat := fun room doc => (integer 0 0xFFFFFFFFFFFFFFFF room doc).map Int.toNat

/-- Any number, as a double. -/
def float : Reader Float
  | _, .number n => n.map Number.toFloat
  | _, _ => none

/-- Any document. -/
def json : Reader Json := fun room doc => doc.toJson? room

/-- A value, or null for none. -/
def optional {α : Type} (reader : Reader α) : Reader (Option α)
  | _, .null => some none
  | room, doc => (reader room doc).map some

/-- The items of an array. -/
def list {α : Type} (reader : Reader α) : Reader (List α)
  | room, .array items => if room = 0 then none else items.mapM (reader (room - 1))
  | _, _ => none

/-- The fields found in a record, by name, and the room inside it. -/
structure Fields where
  room : Nat
  found : List (String × Document)

/-- The members of an object under the names; none when one of them stands twice. -/
def membersNamed (names : List String) :
    List (Option String × Document) → Option (List (String × Document))
  | [] => some []
  | (key, value) :: rest => do
    let key ← key
    let found ← membersNamed names rest
    if names.contains key then
      if (found.lookup key).isSome then none else return (key, value) :: found
    else return found

/-- The fields of a record with these names. -/
def fields (names : List String) : Reader Fields
  | room, .object members =>
    if room = 0 then none else (membersNamed names members).map (⟨room - 1, ·⟩)
  | room, .array items =>
    if room = 0 || items.length > names.length then none
    else some ⟨room - 1, names.zip items⟩
  | _, _ => none

/-- The value of a field that has to be there. -/
def Fields.required {α : Type} (fs : Fields) (name : String) (reader : Reader α) : Option α := do
  reader fs.room (← fs.found.lookup name)

/-- The value of a field, or the given one when it is missing. -/
def Fields.withDefault {α : Type} (fs : Fields) (name : String) (reader : Reader α) (value : α) :
    Option α :=
  match fs.found.lookup name with
  | none => some value
  | some doc => reader fs.room doc

/-- The value of a field that may be missing or null. -/
def Fields.optional {α : Type} (fs : Fields) (name : String) (reader : Reader α) :
    Option (Option α) :=
  fs.withDefault name reader.optional none

/-- One of several names, also written as an object with that one key and the value null. -/
def name : Reader String
  | _, .string s => s
  | room, .object [(key, .null)] => if room = 0 then none else key
  | _, _ => none

/-- The value of a text. -/
def ofText? {α : Type} (reader : Reader α) (text : String) : Option α := do
  reader Document.textRoom (← Document.ofText? text.toList)

/-- The value of a document, however deep it nests. -/
def ofJson? {α : Type} (reader : Reader α) (doc : Json) : Option α :=
  let tree := Document.ofJson doc
  reader (tree.depth + 1) tree

end Reader

end Wayfind.Json
