/-
Nodes of the accessibility tree, as replies describe them.
-/
import Wayfind.Json.Record

namespace Wayfind.Protocol

open Json (Reader)

/-- A value of the accessibility tree, inside its wrapper. -/
structure AccessibleValue where
  value : Option Json

/-- Reads a wrapped value. -/
def AccessibleValue.reader : Reader AccessibleValue := fun room doc => do
  let fs ← Reader.fields ["value"] room doc
  return ⟨← fs.optional "value" Reader.json⟩

/-- The text of a value that is one. -/
def AccessibleValue.text (v : AccessibleValue) : Option String := v.value.bind Json.string?

/-- A node of the accessibility tree. -/
structure AccessibleNode where
  id : String
  ignored : Bool
  roleValue : Option AccessibleValue
  name : Option AccessibleValue
  /-- The document node behind it. -/
  backendId : Option Int

namespace AccessibleNode

/-- Reads a node. -/
def reader : Reader AccessibleNode := fun room doc => do
  let fs ← Reader.fields ["nodeId", "ignored", "role", "name", "backendDOMNodeId"] room doc
  return {
    id := ← fs.required "nodeId" Reader.string
    ignored := ← fs.withDefault "ignored" Reader.bool false
    roleValue := ← fs.optional "role" AccessibleValue.reader
    name := ← fs.optional "name" AccessibleValue.reader
    backendId := ← fs.optional "backendDOMNodeId" Reader.int64 }

/-- Reads the nodes in the reply to a query of the tree. -/
def listReader : Reader (List AccessibleNode) := fun room doc => do
  let fs ← Reader.fields ["nodes"] room doc
  fs.withDefault "nodes" (Reader.list reader) []

/-- The role of a node, when it is a text. -/
def role (n : AccessibleNode) : Option String := n.roleValue.bind (·.text)

/-- The node may be the answer to a query: it is not ignored and no static text. -/
def isCandidate (n : AccessibleNode) : Bool := !n.ignored && n.role != some "StaticText"

/-- The document nodes behind the candidates among the nodes, in their order. -/
def candidates (nodes : List AccessibleNode) : List Int :=
  (nodes.filter isCandidate).filterMap (·.backendId)

end AccessibleNode

end Wayfind.Protocol
