/-
The world of a page behind a connection, as the program remembers it.

The peer at the other end answers commands.  Of its page the program remembers what it
would otherwise ask again: the global object, the utility bundle, the bindings that are
installed.  All of that dies with the page's script context, so an error that tells of a
dead context makes the program forget it.  A ledger says of every handle whether it has
been disposed.
-/
import Wayfind.Page.Side
import Wayfind.Protocol.Envelope
import Wayfind.Protocol.RemoteObject
import Wayfind.Query.Registry
import Wayfind.Text.Split

namespace Wayfind.Remote

open Protocol (Event RemoteObject)

/-- What comes of a command, and the milliseconds until it is known. -/
structure Delivery where
  delay : Nat
  outcome : Except Error Json

/-- The other end of a connection. -/
structure Peer where
  State : Type
  /-- Takes a command: what comes of it, and the events the peer sends meanwhile. -/
  command : String → Json → State → Delivery × List Event × State
  /-- Whether events may be listened to. -/
  listen : State → Except Error Unit
  /-- Closes the connection. -/
  close : State → Except Error Unit × State

/-- A handle, by its place in the ledger. -/
structure Handle where
  id : Nat
  remote : RemoteObject

instance : Inhabited Handle := ⟨⟨0, default⟩⟩

/-- What the program remembers, and the peer. -/
structure World (P : Peer) where
  peer : P.State
  /-- The expression of the utility bundle. -/
  utilitySource : String
  registry : Query.Registry
  /-- The reference to the global object. -/
  global : Option String
  utility : Option Handle
  /-- The functions lent to the page. -/
  hosts : List (String × Host Handle)
  /-- The names of the functions installed in the page. -/
  installed : List String
  /-- Somebody has begun to listen to events. -/
  listening : Bool
  /-- Events arrive. -/
  subscribed : Bool
  /-- For every handle, whether it has been disposed. -/
  ledger : Array Bool

/-- An error that tells of a dead script context. -/
def isStale : Error → Bool
  | .protocol text =>
    ["Cannot find context with specified id", "Could not find object with given id",
      "Execution context was destroyed"].any fun part => Text.occursIn part.toList text.toList
  | _ => false

/-- A question to the world. -/
inductive Query where
  | command (method : String) (params : Json)
  /-- Subscribes to the events of the peer. -/
  | listen
  /-- An event arrives. -/
  | arrive (event : Event)
  | close
  | global
  | rememberGlobal (id : String)
  /-- The utility bundle, if its handle is not disposed. -/
  | utility
  | rememberUtility (h : Handle)
  | utilitySource
  | useUtility (source : String)
  /-- Forgets what dies with the script context. -/
  | forget
  /-- Makes a handle. -/
  | wrap (remote : RemoteObject)
  | isDisposed (h : Handle)
  /-- Marks a handle as disposed; answers whether it was not. -/
  | dispose (h : Handle)
  /-- Lends a function to the page; answers whether one of that name is installed. -/
  | lend (binding : Binding Handle)
  /-- Begins to listen; answers whether somebody has before. -/
  | startListening
  | markInstalled (name : String)
  | host (name : String)
  | registry

/-- The type of the answer to a question. -/
def Query.Answer : Query → Type
  | command _ _ => Delivery
  | listen => Except Error Unit
  | arrive _ => Unit
  | close => Except Error Unit
  | global => Option String
  | rememberGlobal _ => Unit
  | utility => Option Handle
  | rememberUtility _ => Unit
  | utilitySource => String
  | useUtility _ => Unit
  | forget => Unit
  | wrap _ => Handle
  | isDisposed _ => Bool
  | dispose _ => Bool
  | lend _ => Bool
  | startListening => Bool
  | markInstalled _ => Unit
  | host _ => Option (Host Handle)
  | registry => Query.Registry

namespace World

variable {P : Peer}

/-- A world nothing is known of yet. -/
def init (peer : P.State) (utilitySource : String) : World P :=
  ⟨peer, utilitySource, .empty, none, none, [], [], false, false, #[]⟩

/-- The handle has been disposed. -/
def isDisposed (w : World P) (h : Handle) : Bool := (w.ledger[h.id]?).getD true

/-- Makes a handle. -/
def wrap (w : World P) (remote : RemoteObject) : Handle × World P :=
  (⟨w.ledger.size, remote⟩, { w with ledger := w.ledger.push false })

/-- The events that reach a listener. -/
def heard (w : World P) (events : List Event) : List Event :=
  if w.subscribed then events else []

/-- The answer to a question, the world after it, and the events that reach a listener. -/
def answer (w : World P) : (q : Query) → q.Answer × World P × List Event
  | .command method params =>
    let (delivery, events, peer) := P.command method params w.peer
    (delivery, { w with peer := peer }, w.heard events)
  | .listen => match P.listen w.peer with
    | .ok () => (.ok (), { w with subscribed := true }, [])
    | .error e => (.error e, w, [])
  | .arrive event => ((), w, w.heard [event])
  | .close => ((P.close w.peer).1, { w with peer := (P.close w.peer).2 }, [])
  | .global => (w.global, w, [])
  | .rememberGlobal id => ((), { w with global := some id }, [])
  | .utility => (w.utility.filter fun h => !w.isDisposed h, w, [])
  | .rememberUtility h => ((), { w with utility := some h }, [])
  | .utilitySource => (w.utilitySource, w, [])
  | .useUtility source => ((), { w with utilitySource := source }, [])
  | .forget => ((), { w with global := none, utility := none, installed := [] }, [])
  | .wrap remote => ((w.wrap remote).1, (w.wrap remote).2, [])
  | .isDisposed h => (w.isDisposed h, w, [])
  | .dispose h => (!w.isDisposed h, { w with ledger := w.ledger.setIfInBounds h.id true }, [])
  | .lend binding =>
    let others := w.hosts.filter fun (name, _) => name != binding.name
    (w.installed.contains binding.name,
      { w with hosts := (binding.name, binding.host) :: others }, [])
  | .startListening => (w.listening, { w with listening := true }, [])
  | .markInstalled name => ((), { w with installed := name :: w.installed }, [])
  | .host name => (w.hosts.lookup name, w, [])
  | .registry => (w.registry, w, [])

end World

/-- What happens to a connection from outside. -/
inductive Change where
  | event (event : Event)
  | close

/-- Work of the world in the background. -/
inductive Chore where
  /-- Lets a change happen at a time. -/
  | change (time : Nat) (c : Change)
  /-- Handles an event. -/
  | event (event : Event)

/-- A page behind a connection as a page side; there is one page. -/
def side : PageSide where
  Query := Query
  Answer := Query.Answer
  Handle := Handle
  Page := Unit
  Chore := Chore

end Wayfind.Remote
