/-
Commands to the page, and evaluation in its world.

Every page function is called on the global object, which is asked for when it is not
remembered.  A reply that cannot be read is an error, an exception in the page another.
-/
import Wayfind.Remote.Script
import Wayfind.Remote.World

namespace Wayfind.Remote

open PageSide (Action)
open Protocol (RemoteObject Evaluation)

/-- A question to the world, as an action. -/
def ask (q : Query) : side.Action q.Answer := Action.query (B := side) q

/-- Reads a reply. -/
def read {α : Type} (reader : Json.Reader α) (reply : Json) : side.Action α :=
  match reader.ofJson? reply with
  | some a => return a
  | none => throw (.serialization "an unexpected reply")

/-- The parameters of a command. -/
def params (members : List (String × Json)) : Json := Json.ofMembers members

/-- Sends a command and waits for what comes of it. -/
def command (method : String) (params : Json) : side.Action Json := do
  let d : Delivery ← ask (.command method params)
  if d.delay > 0 then Action.sleep d.delay
  Action.ofExcept d.outcome

/-- Sends a command; what is remembered is forgotten when it tells of a dead script context. -/
def send (method : String) (params : Json) : side.Action Json := do
  match ← Action.attempt (command method params) with
  | .ok reply => return reply
  | .error e =>
    if isStale e then
      let () ← ask .forget
    throw e

/-- The reference to the global object. -/
def globalId : side.Action String := do
  let known : Option String ← ask .global
  match known with
  | some id => return id
  | none =>
    let reply ← command "Runtime.evaluate" (params [("expression", .string "globalThis")])
    match (← read Evaluation.reader reply).result.objectId with
    | none => throw (.protocol "Global object has no object id")
    | some id =>
      let () ← ask (.rememberGlobal id)
      return id

/-- The error of an exception in the page. -/
def thrown (e : Protocol.Exception) : Error := .scriptFailed e.message

/-- Calls a page function on the global object, for the value of its result or a reference to it. -/
def callFunction (script : String) (arguments : List Json) (byValue : Bool) :
    side.Action RemoteObject := do
  let id ← globalId
  let reply ← send "Runtime.callFunctionOn" (params [
    ("functionDeclaration", .string script), ("objectId", .string id),
    ("arguments", .array arguments), ("returnByValue", .bool byValue),
    ("awaitPromise", .bool true), ("userGesture", .bool true)])
  let evaluation ← read Evaluation.reader reply
  match evaluation.exception with
  | some e => throw (thrown e)
  | none => return evaluation.result

/-- Makes a handle. -/
def wrap (remote : RemoteObject) : side.Action Handle := do
  let h : Handle ← ask (.wrap remote)
  return h

/-- A value as an argument of a call. -/
def valueArgument (v : Json) : Json := .object [("value", v)]

/-- A handle as an argument of a call: a reference, or the value where there is none. -/
def handleArgument (h : Handle) : side.Action Json := do
  let disposed : Bool ← ask (.isDisposed h)
  if disposed then throw .disposed
  match h.remote.objectId with
  | some id => return .object [("objectId", .string id)]
  | none => return valueArgument h.remote.localValue

/-- An argument of a call. -/
def callArgument : Argument Handle → side.Action Json
  | .value v => return valueArgument v
  | .undefined => return .object []
  | .handle h => handleArgument h

/-- Calls a page function in the world. -/
def call (script : String) (args : List (Argument Handle)) : side.Action Json := do
  return (← callFunction script (← args.mapM callArgument) true).localValue

/-- Calls a page function in the world and keeps a handle of the result. -/
def callHandle (script : String) (args : List (Argument Handle)) : side.Action Handle := do
  wrap (← callFunction script (← args.mapM callArgument) false)

/-- The utility bundle, which is evaluated when it is not remembered. -/
def utility : side.Action Handle := do
  let known : Option Handle ← ask .utility
  match known with
  | some h => return h
  | none =>
    let source : String ← ask .utilitySource
    let reply ← command "Runtime.evaluate"
      (params [("expression", .string source), ("returnByValue", .bool false)])
    let evaluation ← read Evaluation.reader reply
    match evaluation.exception with
    | some e => throw (thrown e)
    | none =>
      let h ← wrap evaluation.result
      let () ← ask (.rememberUtility h)
      return h

end Wayfind.Remote
