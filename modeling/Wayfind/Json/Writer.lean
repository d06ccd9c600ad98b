/-
The text of a document.

Strings escape the quote, the backslash and the control characters below the blank;
everything else stands for itself.  Two layouts exist: compact, and indented by two
blanks a level with one member or item a line.
-/
import Wayfind.Json.Basic

namespace Wayfind.Json

/-- A hexadecimal digit, in lower case. -/
def hexDigit (n : Nat) : Char := Nat.digitChar n

/-- A character inside a quoted string. -/
def escape (c : Char) : List Char :=
  if c = '"' then ['\\', '"']
  else if c = '\\' then ['\\', '\\']
  else if c = '\x08' then ['\\', 'b']
  else if c = '\t' then ['\\', 't']
  else if c = '\n' then ['\\', 'n']
  else if c = '\x0c' then ['\\', 'f']
  else if c = '\r' then ['\\', 'r']
  else if c.toNat < 0x20 then
    ['\\', 'u', '0', '0', hexDigit (c.toNat / 16), hexDigit (c.toNat % 16)]
  else [c]

/-- A string between quotes. -/
def quote (s : String) : List Char :=
  '"' :: (s.toList.flatMap escape ++ ['"'])

mutual

/-- The compact text of a document. -/
def render : Json → List Char
  | .null => ['n', 'u', 'l', 'l']
  | .bool true => ['t', 'r', 'u', 'e']
  | .bool false => ['f', 'a', 'l', 's', 'e']
  | .number n => n.text
  | .string s => quote s
  | .array items => '[' :: (renderItems items ++ [']'])
  | .object members => '{' :: (renderMembers members ++ ['}'])

/-- Items with a comma between two. -/
def renderItems : List Json → List Char
  | [] => []
  | [item] => render item
  | item :: rest => render item ++ ',' :: renderItems rest

/-- Members with a comma between two. -/
def renderMembers : List (String × Json) → List Char
  | [] => []
  | [(key, value)] => quote key ++ ':' :: render value
  | (key, value) :: rest => quote key ++ ':' :: (render value ++ ',' :: renderMembers rest)

end

/-- A line break and the blanks of a level. -/
def newLine (level : Nat) : List Char :=
  '\n' :: List.replicate (2 * level) ' '

mutual

/-- The indented text of a document that starts on a level. -/
def indent (level : Nat) : Json → List Char
  | .array (item :: rest) =>
    '[' :: (indentItems (level + 1) (item :: rest) ++ newLine level ++ [']'])
  | .object (m :: rest) =>
    '{' :: (indentMembers (level + 1) (m :: rest) ++ newLine level ++ ['}'])
  | .array [] => ['[', ']']
  | .object [] => ['{', '}']
  | .null => render .null
  | .bool b => render (.bool b)
  | .number n => render (.number n)
  | .string s => render (.string s)

/-- Items, each on a line of its own. -/
def indentItems (level : Nat) : List Json → List Char
  | [] => []
  | [item] => newLine level ++ indent level item
  | item :: rest => newLine level ++ indent level item ++ ',' :: indentItems level rest

/-- Members, each on a line of its own. -/
def indentMembers (level : Nat) : List (String × Json) → List Char
  | [] => []
  | [(key, value)] => newLine level ++ quote key ++ ':' :: ' ' :: indent level value
  | (key, value) :: rest =>
    newLine level ++ quote key ++ ':' :: ' ' :: (indent level value ++ ',' :: indentMembers level rest)

end

/-- The compact text of a document, as a string. -/
def compact (doc : Json) : String := String.ofList doc.render

/-- The indented text of a document, as a string. -/
def pretty (doc : Json) : String := String.ofList (doc.indent 0)

end Wayfind.Json
