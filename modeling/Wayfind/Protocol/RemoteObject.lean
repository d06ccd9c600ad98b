/-
Objects and values that live in a page, as replies describe them.
-/
import Wayfind.Json.Record

namespace Wayfind.Protocol

open Json (Reader)

/-- The description of a value in the page: a reference to it, or the value itself. -/
structure RemoteObject where
  kind : String
  subtype : Option String
  /-- The reference, absent for a value sent as such. -/
  objectId : Option String
  value : Option Json
  description : Option String
  /-- The spelling of a number that documents cannot hold. -/
  unserializable : Option String

namespace RemoteObject

/-- The description with no part. -/
def empty : RemoteObject := ⟨"", none, none, none, none, none⟩

instance : Inhabited RemoteObject := ⟨empty⟩

/-- Reads a description. -/
def reader : Reader RemoteObject := fun room doc => do
  let fs ← Reader.fields
    ["type", "subtype", "objectId", "value", "description", "unserializableValue"] room doc
  return {
    kind := ← fs.withDefault "type" Reader.string ""
    subtype := ← fs.optional "subtype" Reader.string
    objectId := ← fs.optional "objectId" Reader.string
    value := ← fs.optional "value" Reader.json
    description := ← fs.optional "description" Reader.string
    unserializable := ← fs.optional "unserializableValue" Reader.string }

/-- The object is a node of the document. -/
def isNode (r : RemoteObject) : Bool := r.subtype == some "node"

/-- The value sent with the description; negative zero counts as zero, other spellings as null. -/
def localValue (r : RemoteObject) : Json :=
  match r.value, r.unserializable with
  | some value, _ => value
  | none, some "-0" => .nat 0
  | none, _ => .null

/-- The value counts as true in a condition of a page script. -/
def isTruthy (r : RemoteObject) : Bool :=
  if r.objectId.isSome then r.subtype != some "null"
  else match r.localValue with
    | .bool b => b
    | .number n => n.toFloat != 0
    | .string s => !s.isEmpty
    | .null => false
    | _ => true

end RemoteObject

/-- What a script threw. -/
structure Exception where
  id : Int
  text : Option String
  thrown : Option RemoteObject

/-- Reads the details of an exception. -/
def Exception.reader : Reader Exception := fun room doc => do
  let fs ← Reader.fields ["exceptionId", "text", "exception"] room doc
  return {
    id := ← fs.withDefault "exceptionId" Reader.int32 0
    text := ← fs.optional "text" Reader.string
    thrown := ← fs.optional "exception" RemoteObject.reader }

/-- What to tell people: the description of the thrown object, or else the text. -/
def Exception.message (e : Exception) : String :=
  ((e.thrown.bind (·.description)).or e.text).getD "Evaluation failed"

/-- The reply to an evaluation. -/
structure Evaluation where
  result : RemoteObject
  exception : Option Exception

/-- Reads the reply to an evaluation. -/
def Evaluation.reader : Reader Evaluation := fun room doc => do
  let fs ← Reader.fields ["result", "exceptionDetails"] room doc
  return {
    result := ← fs.withDefault "result" RemoteObject.reader .empty
    exception := ← fs.optional "exceptionDetails" Exception.reader }

/-- A property of an object. -/
structure Property where
  name : String
  value : Option RemoteObject
  enumerable : Bool

/-- Reads a property. -/
def Property.reader : Reader Property := fun room doc => do
  let fs ← Reader.fields ["name", "value", "enumerable"] room doc
  return {
    name := ← fs.required "name" Reader.string
    value := ← fs.optional "value" RemoteObject.reader
    enumerable := ← fs.withDefault "enumerable" Reader.bool false }

/-- Reads the properties in a listing of an object. -/
def Property.listReader : Reader (List Property) := fun room doc => do
  let fs ← Reader.fields ["result"] room doc
  fs.withDefault "result" (Reader.list Property.reader) []

end Wayfind.Protocol
