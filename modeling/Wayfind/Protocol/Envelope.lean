/-
The envelope of the debugging protocol: requests, replies and events.

A request carries an id, a reply repeats it, an event carries none.  A text that reads
as a reply is a reply, whatever else it holds; only then is it tried as an event.
-/
import Wayfind.Json.Record
import Wayfind.Json.Writer

namespace Wayfind.Protocol

open Json (Reader)

/-- A command sent to a page target. -/
structure Request where
  id : Nat
  method : String
  params : Option Json
  session : Option String

/-- The document of a request; a part that is absent is left out. -/
def Request.toJson (r : Request) : Json :=
  .object (
    [("id", .nat r.id), ("method", .string r.method)] ++
    (r.params.map fun p => ("params", p)).toList ++
    (r.session.map fun s => ("sessionId", .string s)).toList)

/-- The text of a request. -/
def Request.text (r : Request) : String := r.toJson.compact

/-- What a page target says of its own accord. -/
structure Event where
  method : String
  params : Json
  session : Option String

/-- Reads an event. -/
def Event.reader : Reader Event := fun room doc => do
  let fs ← Reader.fields ["method", "params", "sessionId"] room doc
  return {
    method := ← fs.required "method" Reader.string
    params := ← fs.withDefault "params" Reader.json .null
    session := ← fs.optional "sessionId" Reader.string }

/-- Why a command was refused. -/
structure Refusal where
  code : Int
  message : String
  data : Option Json

/-- Reads the reason of a refusal. -/
def Refusal.reader : Reader Refusal := fun room doc => do
  let fs ← Reader.fields ["code", "message", "data"] room doc
  return {
    code := ← fs.required "code" Reader.int32
    message := ← fs.required "message" Reader.string
    data := ← fs.optional "data" Reader.json }

/-- The reply to a command. -/
structure Reply where
  id : Nat
  result : Json
  error : Option Refusal

/-- Reads a reply. -/
def Reply.reader : Reader Reply := fun room doc => do
  let fs ← Reader.fields ["id", "result", "error"] room doc
  return {
    id := ← fs.required "id" Reader.nat64
    result := ← fs.withDefault "result" Reader.json .null
    error := ← fs.optional "error" Refusal.reader }

/-- What an incoming text is. -/
inductive Incoming where
  | reply (reply : Reply)
  | event (event : Event)
  | unknown

/-- Tells replies, events and other texts apart. -/
def Incoming.ofText (text : String) : Incoming :=
  match Reader.ofText? Reply.reader text with
  | some r => .reply r
  | none =>
    match Reader.ofText? Event.reader text with
    | some e => .event e
    | none => .unknown

end Wayfind.Protocol
