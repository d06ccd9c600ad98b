/-
A scripted server at the other end of a connection.

A command written on the connection comes to the server as a request.  The first rule
that fits it says which frames go back, and whether a result or an error goes after
them; without a rule the usual result goes back.  A closing frame or a cut ends the
exchange.
-/
import Wayfind.Connection.Basic
import Wayfind.Remote.World
import Wayfind.Scripted.Rule

namespace Wayfind.Scripted

open Protocol (Event Incoming)
open Remote (Delivery Peer)

/-- What a server sends. -/
inductive Frame where
  | text (text : String)
  /-- Something that the client passes over. -/
  | other
  /-- The end of the connection. -/
  | closing
  /-- No frame: the connection breaks. -/
  | cut
deriving DecidableEq, Repr

/-- What a server sends for a request. -/
structure Script where
  frames : List Frame
  result : Option Json
  refusal : Option Json

/-- A frame with the placeholders in its text filled in. -/
def Frame.fill (f : Filling) : Frame → Frame
  | text t => text (f.fill t)
  | other => other
  | closing => closing
  | cut => cut

/-- A reply to a request, with a result or an error in it. -/
def replyFrame (id : Nat) (part : String) (value : Json) : Frame :=
  .text (Json.object [("id", .nat id), (part, value)]).compact

/-- The placeholders for the numbers of a request and of those before it. -/
def idFilling (id : Nat) : Filling :=
  [("\x7bid\x7d", toString id), ("\x7bid-1\x7d", toString ((id : Int) - 1)),
    ("\x7bid-2\x7d", toString ((id : Int) - 2))]

/-- The frames of a script, placeholders filled in. -/
def Script.filled (s : Script) (id : Nat) (f : Filling) : List Frame :=
  s.frames.map (Frame.fill (f ++ idFilling id)) ++
  (s.result.map fun v => replyFrame id "result" (f.fillJson v)).toList ++
  (s.refusal.map fun v => replyFrame id "error" (f.fillJson v)).toList

/-- A scripted server. -/
structure Server where
  rules : List (Rule Script)
  /-- The texts of the requests received. -/
  received : Array String

/-- The frames a server sends for a request. -/
def Server.handle (s : Server) (id : Nat) (method : String) (params : Json) : List Frame × Server :=
  let s := { s with received := s.received.push (Connection.requestText id method params) }
  match Rule.use? method params s.rules with
  | some (used, rules) => (used.answer.filled id (.ofCommand used.uses params), { s with rules := rules })
  | none => ([replyFrame id "result" (usualResult method params)], s)

/-- A request on its way to the server. -/
structure Outgoing where
  id : Nat
  method : String
  params : Json

/-- A connection, the server at its other end, and the time a command may take. -/
structure Link where
  connection : Connection
  server : Server
  commandTimeout : Nat

namespace Link

/-- A new connection to a server. -/
def toServer (server : Server) (commandTimeout : Nat) : Link := ⟨.opened, server, commandTimeout⟩

/-- The event in a frame. -/
def eventIn : Frame → Option Event
  | .text t => match Incoming.ofText t with
    | .event e => some e
    | _ => none
  | _ => none

/-- The frame ends the connection. -/
def ends (f : Frame) : Bool := f == .closing || f == .cut

/-- Takes in frames, up to the end of the connection: the events among them. -/
def takeIn (l : Link) : List Frame → List Event × Link
  | [] => ([], l)
  | f :: rest =>
    if ends f then
      ([], { l with connection := l.connection.deactivate.sever })
    else
      let taken := match f with
        | .text t => { l with connection := l.connection.receive t }
        | _ => l
      ((eventIn f).toList ++ (takeIn taken rest).1, (takeIn taken rest).2)

/-- Writes a command; none but its number and the request on its way. -/
def write (l : Link) (method : String) (params : Json) : Except Error (Outgoing × Link) := do
  let (id, c) ← l.connection.start method
  return (⟨id, method, params⟩, { l with connection := (c.register id).written id })

/-- The server handles a request, unless the connection has ended: the events it sends. -/
def exchange (l : Link) (o : Outgoing) : List Event × Link :=
  if l.connection.active then
    let (frames, server) := l.server.handle o.id o.method o.params
    takeIn { l with server := server } frames
  else ([], l)

/-- The outcome of a command when all is done that can be done, and the time it took. -/
def settle (l : Link) (id : Nat) : Delivery × Link :=
  let collected := l.connection.collect id
  let ended := collected.expire id
  let delay := if (collected.outcome? id).isSome then 0 else l.commandTimeout
  (⟨delay, (ended.outcome? id).getD (.error Connection.inactive)⟩, { l with connection := ended })

/-- Sends a command: what comes of it, and the events the server sends meanwhile. -/
def command (method : String) (params : Json) (l : Link) : Delivery × List Event × Link :=
  match l.write method params with
  | .error e => (⟨0, .error e⟩, [], l)
  | .ok (o, l) =>
    let (events, l) := l.exchange o
    let (delivery, l) := l.settle o.id
    (delivery, events, l)

/-- Writes commands in order. -/
def writeAll (l : Link) : List (String × Json) → List (Except Error Outgoing) × Link
  | [] => ([], l)
  | (method, params) :: rest =>
    match l.write method params with
    | .error e => ((.error e :: (writeAll l rest).1), (writeAll l rest).2)
    | .ok (o, l) => ((.ok o :: (writeAll l rest).1), (writeAll l rest).2)

/-- The outcomes of commands, in order. -/
def settleAll (l : Link) : List (Except Error Outgoing) → List (Except Error Json) × Link
  | [] => ([], l)
  | .error e :: rest => (.error e :: (settleAll l rest).1, (settleAll l rest).2)
  | .ok o :: rest =>
    let (delivery, l) := l.settle o.id
    (delivery.outcome :: (settleAll l rest).1, (settleAll l rest).2)

/-- Sends commands all at once: every request is written before the server handles one. -/
def commands (l : Link) (calls : List (String × Json)) : List (Except Error Json) × Link :=
  let (requests, l) := l.writeAll calls
  let handled := (requests.filterMap Except.toOption).foldl (fun l o => (l.exchange o).2) l
  handled.settleAll requests

/-- Closes the connection from this side; one that has ended stays as it is. -/
def close (l : Link) : Link := { l with connection := l.connection.deactivate.sever }

/-- The link as the world of a page sees it. -/
def peer : Peer where
  State := Link
  command := command
  listen _ := .ok ()
  close l := (.ok (), l.close)

end Link

end Wayfind.Scripted
