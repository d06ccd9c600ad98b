/-
A connection to a page target, step by step.

A command gets a number, is registered under it, and is written as a request.  A reply
that carries the number of a registered command takes it out of the registry and goes
to whoever waits; a command also ends when its time is over, and all end when the
connection does.  An event is handed over to everybody who listens at that time; whoever cannot be
reached any more is forgotten.

Each step is small, so that steps of different commands, incoming texts and the end of
the connection can come in any order.
-/
import Wayfind.Connection.Feed
import Wayfind.Error

namespace Wayfind

open Protocol (Event Incoming Reply Request)

namespace Connection

/-- The number of a command. -/
abbrev CommandId := Nat

/-- What has come for a command. -/
inductive Mail where
  | nothing
  | reply (reply : Reply)
  /-- The registry was cleared, so no reply will come. -/
  | severed

/-- How far a command has come. -/
inductive Stage where
  /-- It has a number. -/
  | numbered
  /-- It is registered; its request is not written yet. -/
  | registered
  /-- Its request is written, and its reply is waited for. -/
  | waiting
  | ended (outcome : Except Error Json)
  /-- Nobody waits for it any more. -/
  | abandoned

/-- A command on its way. -/
structure Command where
  id : CommandId
  method : String
  stage : Stage
  mail : Mail

/-- Somebody who listens to events, and the events on their way to them. -/
structure Listener where
  id : Nat
  feed : Feed

/-- Hands an event over to somebody who listens, if they can be reached. -/
def Listener.offer (l : Listener) (e : Event) : Option Listener :=
  (l.feed.offer e).map fun f => { l with feed := f }

end Connection

open Connection

/-- The state of a connection. -/
structure Connection where
  active : Bool
  nextId : CommandId
  /-- The numbers of the registered commands. -/
  registry : List CommandId
  commands : List Command
  listeners : List Listener
  nextListener : Nat

namespace Connection

/-- A connection just made. -/
def opened : Connection := ⟨true, 1, [], [], [], 0⟩

/-! ### Commands -/

/-- Changes the command of a number. -/
def modify (c : Connection) (id : CommandId) (change : Command → Command) : Connection :=
  { c with commands := c.commands.map fun d => if d.id = id then change d else d }

/-- The command of a number. -/
def command? (c : Connection) (id : CommandId) : Option Command :=
  c.commands.find? (·.id == id)

/-- The error of a command on a connection that has ended. -/
def inactive : Error := .webSocket "Connection is not active"

/-- Gives a new command its number, unless the connection has ended. -/
def start (c : Connection) (method : String) : Except Error (CommandId × Connection) :=
  if c.active then
    .ok (c.nextId, { c with
      nextId := c.nextId + 1
      commands := c.commands ++ [⟨c.nextId, method, .numbered, .nothing⟩] })
  else .error inactive

/-- The text of the request of a command; parameters that are null are left out. -/
def requestText (id : CommandId) (method : String) (params : Json) : String :=
  Request.text ⟨id, method, if params.same .null then none else some params, none⟩

/-- Registers a command. -/
def register (c : Connection) (id : CommandId) : Connection :=
  { c.modify id fun d => { d with stage := .registered } with registry := id :: c.registry }

/-- Notes that the request of a command is written. -/
def written (c : Connection) (id : CommandId) : Connection :=
  c.modify id fun d => { d with stage := .waiting }

/-- Takes a command out of the registry. -/
def unregister (c : Connection) (id : CommandId) : Connection :=
  { c with registry := c.registry.filter (· != id) }

/-- Ends a command. -/
def finish (c : Connection) (id : CommandId) (outcome : Except Error Json) : Connection :=
  c.modify id fun d => { d with stage := .ended outcome }

/-- Ends a command whose request could not be written. -/
def writeFailed (c : Connection) (id : CommandId) : Connection :=
  (c.unregister id).finish id (.error (.webSocket "Failed to send message"))

/-- The outcome that a reply gives a command. -/
def outcomeOf (method : String) (r : Reply) : Except Error Json :=
  match r.error with
  | some e => .error (.protocol (method ++ ": " ++ e.message ++ " (code: " ++ toString e.code ++ ")"))
  | none => .ok r.result

/-- The outcome of what has come for a command, if anything has. -/
def Command.arrived (d : Command) : Option (Except Error Json) :=
  match d.mail with
  | .nothing => none
  | .reply r => some (outcomeOf d.method r)
  | .severed => some (.error (.webSocket ("Connection closed while waiting for " ++ d.method)))

/-- Ends a waiting command with what has come for it. -/
def collect (c : Connection) (id : CommandId) : Connection :=
  match c.command? id with
  | some d => match d.stage, d.arrived with
    | .waiting, some outcome => c.finish id outcome
    | _, _ => c
  | none => c

/-- The error of a command whose time is over. -/
def timedOut (id : CommandId) (method : String) : Error :=
  .timeout ("Command " ++ toString id ++ " (" ++ method ++ ") timed out")

/-- Ends a waiting command because its time is over, unless something has come for it. -/
def expire (c : Connection) (id : CommandId) : Connection :=
  match (c.collect id).command? id with
  | some d => match d.stage with
    | .waiting => ((c.collect id).unregister id).finish id (.error (timedOut id d.method))
    | _ => c.collect id
  | none => c

/-- Nobody waits for a command any more. -/
def abandon (c : Connection) (id : CommandId) : Connection :=
  c.modify id fun d => { d with stage := .abandoned }

/-- The outcome of a command that has ended. -/
def outcome? (c : Connection) (id : CommandId) : Option (Except Error Json) := do
  match (← c.command? id).stage with
  | .ended outcome => some outcome
  | _ => none

/-! ### What comes in -/

/-- Hands a reply to the registered command of its number, if there is one. -/
def reply (c : Connection) (r : Reply) : Connection :=
  if c.registry.contains r.id then
    (c.unregister r.id).modify r.id fun d => { d with mail := .reply r }
  else c

/-- Hands an event to everybody who listens, and forgets those it cannot be handed to. -/
def event (c : Connection) (e : Event) : Connection :=
  { c with listeners := c.listeners.filterMap (·.offer e) }

/-- Takes in a text. -/
def receive (c : Connection) (text : String) : Connection :=
  match Incoming.ofText text with
  | .reply r => c.reply r
  | .event e => c.event e
  | .unknown => c

/-- The connection has ended. -/
def deactivate (c : Connection) : Connection := { c with active := false }

/-- Clears the registry: no reply will come for the commands in it. -/
def sever (c : Connection) : Connection :=
  { c with
    registry := []
    commands := c.commands.map fun d =>
      if c.registry.contains d.id then { d with mail := .severed } else d }

/-! ### Listening -/

/-- Somebody begins to listen, under a number of their own. -/
def listen (c : Connection) : Nat × Connection :=
  (c.nextListener, { c with
    listeners := c.listeners ++ [⟨c.nextListener, .opened⟩]
    nextListener := c.nextListener + 1 })

/-- The events on their way to a listener. -/
def feed? (c : Connection) (id : Nat) : Option Feed := (c.listeners.find? (·.id == id)).map (·.feed)

/-- Changes what is on its way to a listener. -/
def modifyFeed (c : Connection) (id : Nat) (change : Feed → Feed) : Connection :=
  { c with listeners := c.listeners.map fun l => if l.id = id then { l with feed := change l.feed } else l }

/-- Somebody stops listening. -/
def unlisten (c : Connection) (id : Nat) : Connection := c.modifyFeed id Feed.leave

/-- The forwarder of a listener makes its next move. -/
def forward (c : Connection) (id : Nat) : Connection := c.modifyFeed id Feed.forward

/-- A listener takes an event, if one is there. -/
def takeEvent (c : Connection) (id : Nat) : Option Event × Connection :=
  ((c.feed? id).bind (·.next.1), c.modifyFeed id (·.next.2))

/-- Takes the next events of a listener, at most so many. -/
def takeEvents (c : Connection) (id count : Nat) : List Event × Connection :=
  (((c.feed? id).map fun f => (f.take count).1).getD [], c.modifyFeed id fun f => (f.take count).2)

end Connection

end Wayfind
