/-
The dialects a selector may be written in.

A dialect has a name, which selectors carry in front; names are compared without
regard to the case of ASCII letters.  The built-in dialects other than plain CSS
reserve theirs.
-/

namespace Wayfind.Query

/-- A dialect of selectors. -/
inductive Dialect where
  | css
  | aria
  | pierce
  | text
  | xpath
  | custom (name : String)
deriving DecidableEq, Repr

/-- Equal up to the case of ASCII letters. -/
def sameName (a b : List Char) : Bool := a.map Char.toLower == b.map Char.toLower

namespace Dialect

/-- The name of a dialect. -/
def name : Dialect → String
  | css => "css"
  | aria => "aria"
  | pierce => "pierce"
  | text => "text"
  | xpath => "xpath"
  | custom name => name

/-- The dialects that exist without registration. -/
def builtins : List Dialect := [css, aria, pierce, text, xpath]

/-- The dialect of a name: a built-in one, or the custom one that would have it. -/
def ofName (name : String) : Dialect :=
  (builtins.find? fun d => sameName d.name.toList name.toList).getD (custom name)

/-- The name is reserved for a built-in dialect; plain CSS has no name in selectors. -/
def isReserved (name : String) : Bool :=
  match ofName name with
  | css | custom _ => false
  | _ => true

end Dialect

end Wayfind.Query
