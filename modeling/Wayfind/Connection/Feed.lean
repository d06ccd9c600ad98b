/-
Events on their way to somebody who listens.

An event that is handed over goes to the end of a backlog, which has room for any number.  A forwarder
takes the events out of the backlog one at a time and puts each into a queue, where the reader finds it;
the queue has room for so many, and the forwarder waits while it is full.  When the reader has gone, the
forwarder ends with the next event it holds, and from then on nothing can be handed over.
-/
import Wayfind.Protocol.Envelope

namespace Wayfind.Connection

open Protocol (Event)

/-- The events between a connection and a reader. -/
structure Feed where
  /-- The events that the forwarder has not taken yet. -/
  backlog : List Event
  /-- The event that the forwarder holds. -/
  held : Option Event
  /-- The events that the reader has not taken yet. -/
  queue : List Event
  /-- The reader has not gone. -/
  attended : Bool
  /-- The forwarder has not ended. -/
  running : Bool

namespace Feed

/-- The feed of a new reader. -/
def opened : Feed := ⟨[], none, [], true, true⟩

/-- How many events the queue has room for. -/
def capacity : Nat := 100

/-- Hands over an event, unless the forwarder has ended. -/
def offer (f : Feed) (e : Event) : Option Feed :=
  if f.running then some { f with backlog := f.backlog ++ [e] } else none

/-- The next move of the forwarder; there is none while it waits for an event or for room. -/
def forward (f : Feed) : Feed :=
  if f.running then
    match f.held, f.backlog with
    | some e, _ =>
      if !f.attended then { f with backlog := [], held := none, running := false }
      else if f.queue.length < capacity then { f with held := none, queue := f.queue ++ [e] }
      else f
    | none, e :: rest => { f with backlog := rest, held := some e }
    | none, [] => f
  else f

/-- The reader takes an event, if one is there. -/
def next (f : Feed) : Option Event × Feed :=
  match f.queue with
  | e :: rest => (some e, { f with queue := rest })
  | [] => (none, f)

/-- The reader goes, and what was in the queue is lost. -/
def leave (f : Feed) : Feed := { f with queue := [], attended := false }

/-- The feed when the forwarder has made every move it can. -/
def settle (f : Feed) : Feed := Nat.repeat forward (2 * f.backlog.length + 1) f

/-- The reader takes the next events, at most so many, and lets the forwarder move before each. -/
def take : Nat → Feed → List Event × Feed
  | 0, f => ([], f)
  | n + 1, f =>
    match f.settle.next with
    | (some e, f) => (e :: (take n f).1, (take n f).2)
    | (none, f) => ([], f)

end Feed

end Wayfind.Connection
