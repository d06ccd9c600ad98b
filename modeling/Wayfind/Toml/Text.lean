/-
Configuration texts: lines of keys and values under table headers.

A text is read line by line into one tree of tables.  Whatever is not a line of the
format makes the whole text unreadable, as does a key that is given twice.
-/
import Wayfind.Toml.Lexical
import Wayfind.Toml.Value

namespace Wayfind.Toml

/-- How deep arrays and inline tables may nest. -/
def maxDepth : Nat := 79

/-- An integer in a base, behind its mark. -/
def basedInteger (base : Nat) (isDigit : Char → Bool) (cs : List Char) :
    Option (Value × List Char) := do
  let (ds, rest) ← digits isDigit (cs.length + 1) cs
  let n := number base ds
  if n < 0x8000000000000000 then return (.integer n, rest) else none

/-- The digit is hexadecimal. -/
def isHexDigit (c : Char) : Bool := (Json.Token.hexValue c).isSome

/-- A signed number behind its sign: a name of a special value, an integer or a float. -/
def signedNumber (negative : Bool) (cs : List Char) : Option (Value × List Char) :=
  match cs with
  | 'i' :: 'n' :: 'f' :: rest => some (.float, rest)
  | 'n' :: 'a' :: 'n' :: rest => some (.float, rest)
  | cs => do
    let (ds, rest) ← digits Char.isDigit (cs.length + 1) cs
    if ds.length > 1 && ds.head? = some '0' then none
    else match floatTail rest with
      | some (tail, rest) => if !negative && tail.overflows ds then none else return (.float, rest)
      | none =>
        let n := number 10 ds
        if rest.head? = some '.' || rest.head? = some 'e' || rest.head? = some 'E' then none
        else if negative then (if n ≤ 0x8000000000000000 then return (.integer (-n), rest) else none)
        else if n < 0x8000000000000000 then return (.integer n, rest) else none

/-- A number or a date. -/
def numberOrDate (cs : List Char) : Option (Value × List Char) :=
  match dateTime cs with
  | some rest => some (.date, rest)
  | none =>
    match cs with
    | '0' :: 'x' :: rest => basedInteger 16 isHexDigit rest
    | '0' :: 'o' :: rest => basedInteger 8 (fun c => '0' ≤ c && c ≤ '7') rest
    | '0' :: 'b' :: rest => basedInteger 2 (fun c => c = '0' || c = '1') rest
    | '+' :: rest => signedNumber false rest
    | '-' :: rest => signedNumber true rest
    | cs => signedNumber false cs

mutual

/-- A value, nested at most so deep. -/
def value (depth : Nat) : Nat → List Char → Option (Value × List Char)
  | 0, _ => none
  | fuel + 1, cs =>
    match cs with
    | '[' :: rest => if depth = 0 then none else arrayItems (depth - 1) fuel [] rest
    | '{' :: rest => if depth = 0 then none else inlineStart (depth - 1) fuel rest
    | 't' :: 'r' :: 'u' :: 'e' :: rest => some (.boolean true, rest)
    | 'f' :: 'a' :: 'l' :: 's' :: 'e' :: rest => some (.boolean false, rest)
    | '"' :: rest => (string ('"' :: rest)).map fun (s, rest) => (.string (String.ofList s), rest)
    | '\'' :: rest => (string ('\'' :: rest)).map fun (s, rest) => (.string (String.ofList s), rest)
    | cs => numberOrDate cs

/-- The rest of an array behind a bracket or a comma; the items so far come last first. -/
def arrayItems (depth : Nat) : Nat → List Value → List Char → Option (Value × List Char)
  | 0, _, _ => none
  | fuel + 1, items, cs =>
    match skipLines (cs.length + 1) cs with
    | ']' :: rest => some (.array items.reverse, rest)
    | cs => do
      let (item, rest) ← value depth fuel cs
      match skipLines (rest.length + 1) rest with
      | ',' :: rest => arrayItems depth fuel (item :: items) rest
      | ']' :: rest => return (.array (item :: items).reverse, rest)
      | _ => none

/-- The rest of an inline table behind its brace. -/
def inlineStart (depth : Nat) : Nat → List Char → Option (Value × List Char)
  | 0, _ => none
  | fuel + 1, cs =>
    match skipSpace cs with
    | '}' :: rest => some (.table .inline [], rest)
    | cs => inlineEntries depth fuel [] cs

/-- The rest of an inline table, from a key on. -/
def inlineEntries (depth : Nat) : Nat → Entries → List Char → Option (Value × List Char)
  | 0, _, _ => none
  | fuel + 1, entries, cs => do
    let (path, rest) ← key cs
    let rest ← expect '=' rest
    let (v, rest) ← value depth fuel (skipSpace rest)
    let entries ← Entries.insert true entries v path
    match skipSpace rest with
    | ',' :: rest => inlineEntries depth fuel entries rest
    | '}' :: rest => return (.table .inline entries, rest)
    | _ => none

end

/-- A text being read: the tree so far, and the path of the table that is open. -/
structure Progress where
  entries : Entries
  path : List String

/-- Splits a path into the way and the last key. -/
def splitPath (path : List String) : Option (List String × String) :=
  path.getLast?.map fun last => (path.dropLast, last)

/-- Reads one line without its end. -/
def line (p : Progress) (cs : List Char) : Option (Progress × List Char) :=
  match skipSpace cs with
  | '[' :: '[' :: rest => do
    let (path, rest) ← key rest
    let rest ← expect ']' (← expect ']' rest)
    let (way, last) ← splitPath path
    let entries ← Entries.modifyAt (Entries.openItem last) p.entries way
    return (⟨entries, path⟩, rest)
  | '[' :: rest => do
    let (path, rest) ← key rest
    let rest ← expect ']' rest
    let (way, last) ← splitPath path
    let entries ← Entries.modifyAt (Entries.openTable last) p.entries way
    return (⟨entries, path⟩, rest)
  | [] => some (p, [])
  | c :: rest =>
    if c = '#' || (lineEnd (c :: rest)).isSome then some (p, c :: rest)
    else do
      let (path, rest) ← key (c :: rest)
      let rest ← expect '=' rest
      let (v, rest) ← value maxDepth (2 * rest.length + 2) (skipSpace rest)
      let entries ← Entries.modifyAt (fun inner => Entries.insert true inner v path) p.entries p.path
      return (⟨entries, p.path⟩, rest)

/-- Reads lines to the end of the text. -/
def lines : Nat → Progress → List Char → Option Entries
  | 0, _, _ => none
  | fuel + 1, p, cs => do
    let (p, rest) ← line p cs
    match skipComment (skipSpace rest) with
    | [] => return p.entries
    | rest => lines fuel p (← lineEnd rest)

/-- The entries of a configuration text; none when it cannot be read. -/
def entries? (text : String) : Option Entries :=
  let cs := match text.toList with
    | '\ufeff' :: rest => rest
    | cs => cs
  lines (cs.length + 1) ⟨[], []⟩ cs

end Wayfind.Toml
