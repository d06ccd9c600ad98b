/-
Calls from the page into the program.

An event tells that a page function of the program was called, and under which number
the page keeps the arguments.  The program takes them, runs the function, and keeps or
breaks the promise it left in the page.
-/
import Wayfind.Activity.Timeline
import Wayfind.Locator.Operation
import Wayfind.Remote.Realm

namespace Wayfind.Remote

open PageSide (Action)
open Protocol (Event)

/-- The name of the function that was called, if a raw binding of the program was. -/
def calledName? (params : Json) : Option String := do
  let raw ← (params.member "name").string?
  if bindingMark.isPrefixOf raw then
    return String.ofList (raw.toList.drop bindingMark.length)
  else none

/-- The arguments of a call, which the page gives away. -/
def takeArguments (patience : Nat) (name : String) (call : Json) : side.Action (List Handle) := do
  let remote ← callFunction Script.takeArguments
    [valueArgument (.string name), valueArgument call] false
  let array ← wrap remote
  let items ← Action.attempt array.arrayItems
  (realm patience).releaseIn array
  Action.ofExcept items

/-- Keeps the promise of a call. -/
def resolveCall (patience : Nat) (name : String) (call : Json) (result : Argument Handle) :
    side.Action Unit := do
  let value ← callArgument result
  let _ ← callFunction Script.resolveCall
    [valueArgument (.string name), valueArgument call, value] true
  if let .handle h := result then (realm patience).releaseIn h

/-- Breaks the promise of a call. -/
def rejectCall (name : String) (call : Json) (e : Error) : side.Action Unit := do
  let _ ← callFunction Script.rejectCall
    [valueArgument (.string name), valueArgument call, valueArgument (.string e.message)] true

/-- Answers a call of a function of the program. -/
def answerCall (patience : Nat) (name : String) (params : Json) : side.Action Unit := do
  match Json.ofText? (((params.member "payload").string?).getD "\x7b\x7d") with
  | none => throw (.serialization "an unexpected call")
  | some payload =>
    let call := payload.member "id"
    let host : Option (Host Handle) ← ask (.host name)
    match host with
    | none => throw (.internal ("Unknown binding " ++ name))
    | some host =>
      let args ← takeArguments patience name call
      let outcome ← Action.attempt (Query.answerHost (realm patience) host args)
      args.forM (realm patience).releaseIn
      match outcome with
      | .ok result => resolveCall patience name call result
      | .error e => rejectCall name call e

/-- Handles an event; a failure is passed over. -/
def handle (patience : Nat) (event : Event) : side.Task Unit := do
  if event.method = "Runtime.bindingCalled" then
    if let some name := calledName? event.params then
      let _ ← (answerCall patience name event.params).outcome

/-- Lets a change happen. -/
def Change.activity : Change → side.Task Unit
  | .event e => Activity.query (S := side.signature) (.arrive e)
  | .close => do
    let _ ← Remote.close.outcome

/-- The activity of a chore. -/
def Chore.activity (patience : Nat) : Chore → side.Task Unit
  | .event e => handle patience e
  | .change time c => do
    let () ← Activity.perform (.sleepUntil time)
    c.activity

/-- What the requests of activities on the page behind a connection to a peer mean. -/
def backend (P : Peer) (patience : Nat) : Activity.Backend side.signature where
  World := World P
  answer q w := ((w.answer q).1, (w.answer q).2.1, (w.answer q).2.2.map fun e => .chore (.event e))
  start := Job.activity (browser patience) (Chore.activity patience)
  discard := discardFound

end Wayfind.Remote
