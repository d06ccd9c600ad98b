/-
A scripted peer: it answers every command at once, by its rules or in the usual way, and
keeps a record of the commands.
-/
import Wayfind.Remote.World
import Wayfind.Scripted.Rule

namespace Wayfind.Scripted

open Remote (Delivery Peer)

/-- The answer to a command. -/
inductive Reply where
  | result (value : Json)
  | failure (cause : String → Error) (text : String)

/-- The outcome of a command, placeholders filled in. -/
def Reply.outcome (f : Filling) : Reply → Except Error Json
  | result value => .ok (f.fillJson value)
  | failure cause text => .error (cause (f.fill text))

/-- A scripted peer. -/
structure State where
  rules : List (Rule Reply)
  /-- What comes of a command that no rule fits. -/
  usual : String → Json → Json
  /-- The commands taken so far. -/
  commands : Array (String × Json)
  active : Bool

namespace State

/-- A peer with rules. -/
def ofRules (rules : List (Rule Reply)) : State := ⟨rules, usualResult, #[], true⟩

/-- A peer that answers every command with an empty object. -/
def bare : State := ⟨[], fun _ _ => .object [], #[], true⟩

/-- The parameters of the commands of a method. -/
def paramsOf (s : State) (method : String) : List Json :=
  (s.commands.toList.filter fun (m, _) => m == method).map (·.2)

/-- The error of a connection that was closed. -/
def closed : Error := .protocol "Connection is closed"

/-- Takes a command. -/
def command (method : String) (params : Json) (s : State) : Except Error Json × State :=
  if !s.active then (.error closed, s)
  else
    let s := { s with commands := s.commands.push (method, params) }
    match Rule.use? method params s.rules with
    | some (used, rules) =>
      (used.answer.outcome (.ofCommand used.uses params), { s with rules := rules })
    | none => (.ok (s.usual method params), s)

end State

/-- The scripted peer, as the world of a page sees it. -/
def peer : Peer where
  State := State
  command method params s :=
    let (outcome, s) := s.command method params
    (⟨0, outcome⟩, [], s)
  listen s := if s.active then .ok () else .error State.closed
  close s := (.ok (), { s with active := false })

end Wayfind.Scripted
