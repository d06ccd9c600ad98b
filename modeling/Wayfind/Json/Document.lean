/-
The tree of a document text, before its values are read.

The tree keeps every member of an object, repeated keys too, and leaves without a
value.  It is built by a machine that reads one token at a time and keeps the open
containers on a stack, so nesting is limited only where a value is asked for.
-/
import Wayfind.Json.Token

namespace Wayfind.Json

/-- The tree of a document text. -/
inductive Document where
  | null
  | bool (value : Bool)
  | number (value : Option Number)
  | string (value : Option String)
  | array (items : List Document)
  | object (members : List (Option String × Document))
deriving Inhabited

namespace Document

/-- An open container: what stands in it so far, last first. -/
inductive Frame where
  | array (items : List Document)
  | object (members : List (Option String × Document)) (key : Option String)

/-- What the machine expects next. -/
inductive Expect where
  /-- A value. -/
  | value
  /-- A value, or the end of the array just opened. -/
  | firstItem
  /-- A key, or the end of the object just opened. -/
  | firstKey
  /-- A key. -/
  | key
  /-- The colon behind a key. -/
  | colon
  /-- A comma or the end of the innermost container; at the top, the end of the text. -/
  | next (done : Document)

/-- The machine between two tokens: what it expects, and the open containers, innermost first. -/
structure Machine where
  expect : Expect
  stack : List Frame

/-- The machine before the first token. -/
def Machine.start : Machine := ⟨.value, []⟩

/-- The value of a token that is one. -/
def leaf? : Token → Option Document
  | .null => some .null
  | .bool b => some (.bool b)
  | .number n => some (.number n)
  | .string s => some (.string s)
  | _ => none

/-- Starts a value. -/
def Machine.enter (token : Token) (stack : List Frame) : Option Machine :=
  match token with
  | .openArray => some ⟨.firstItem, .array [] :: stack⟩
  | .openObject => some ⟨.firstKey, .object [] none :: stack⟩
  | token => (leaf? token).map fun d => ⟨.next d, stack⟩

/-- Reads one token. -/
def Machine.step (m : Machine) (token : Token) : Option Machine :=
  match m.expect, token, m.stack with
  | .firstItem, .closeArray, .array _ :: stack => some ⟨.next (.array []), stack⟩
  | .value, token, stack => Machine.enter token stack
  | .firstItem, token, stack => Machine.enter token stack
  | .firstKey, .closeObject, .object _ _ :: stack => some ⟨.next (.object []), stack⟩
  | .firstKey, .string k, .object ms _ :: stack => some ⟨.colon, .object ms k :: stack⟩
  | .key, .string k, .object ms _ :: stack => some ⟨.colon, .object ms k :: stack⟩
  | .colon, .colon, stack => some ⟨.value, stack⟩
  | .next d, .comma, .array items :: stack => some ⟨.value, .array (d :: items) :: stack⟩
  | .next d, .closeArray, .array items :: stack => some ⟨.next (.array (d :: items).reverse), stack⟩
  | .next d, .comma, .object ms k :: stack => some ⟨.key, .object ((k, d) :: ms) k :: stack⟩
  | .next d, .closeObject, .object ms k :: stack =>
    some ⟨.next (.object ((k, d) :: ms).reverse), stack⟩
  | _, _, _ => none

/-- The tree, when one value has been read and every container is closed. -/
def Machine.result? : Machine → Option Document
  | ⟨.next d, []⟩ => some d
  | _ => none

/-- The tree of a list of tokens. -/
def ofTokens? (tokens : List Token) : Option Document := do
  let m ← tokens.foldlM Machine.step Machine.start
  m.result?

/-- The tree of a text; none when the text is no document. -/
def ofText? (text : List Char) : Option Document := do
  ofTokens? (← Token.scan text)

mutual

/-- The tree of a value. -/
def ofJson : Json → Document
  | .null => .null
  | .bool b => .bool b
  | .number n => .number (some n)
  | .string s => .string (some s)
  | .array items => .array (ofItems items)
  | .object members => .object (ofMembers members)

/-- The trees of items. -/
def ofItems : List Json → List Document
  | [] => []
  | item :: rest => ofJson item :: ofItems rest

/-- The trees of members. -/
def ofMembers : List (String × Json) → List (Option String × Document)
  | [] => []
  | (key, value) :: rest => (some key, ofJson value) :: ofMembers rest

end

mutual

/-- The number of containers around the deepest leaf. -/
def depth : Document → Nat
  | .array items => itemsDepth items + 1
  | .object members => membersDepth members + 1
  | _ => 0

/-- The greatest depth among items. -/
def itemsDepth : List Document → Nat
  | [] => 0
  | item :: rest => max (depth item) (itemsDepth rest)

/-- The greatest depth among members. -/
def membersDepth : List (Option String × Document) → Nat
  | [] => 0
  | (_, value) :: rest => max (depth value) (membersDepth rest)

end

mutual

/-- The value of a tree, with every leaf read and containers nested at most `room` deep. -/
def toJson? (room : Nat) : Document → Option Json
  | .null => some .null
  | .bool b => some (.bool b)
  | .number n => n.map .number
  | .string s => s.map .string
  | .array items => if room = 0 then none else (itemsToJson? (room - 1) items).map .array
  | .object members => if room = 0 then none else (membersToJson? (room - 1) members).map Json.ofMembers

/-- The values of items. -/
def itemsToJson? (room : Nat) : List Document → Option (List Json)
  | [] => some []
  | item :: rest => do return (← toJson? room item) :: (← itemsToJson? room rest)

/-- The values of members, in the order of the text. -/
def membersToJson? (room : Nat) : List (Option String × Document) → Option (List (String × Json))
  | [] => some []
  | (key, value) :: rest => do
    let key ← key
    return (key, ← toJson? room value) :: (← membersToJson? room rest)

end

/-- How deep the containers of a text may nest. -/
def textRoom : Nat := 127

end Document

/-- The value of a text; none when it is no document or nests too deep. -/
def ofText? (text : String) : Option Json := do
  (← Document.ofText? text.toList).toJson? Document.textRoom

end Wayfind.Json
