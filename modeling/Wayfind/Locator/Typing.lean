/-
What to type into a field.

The kind of an element decides how it takes a value.  Where it is typed, text that
continues what the field holds is typed on its own; otherwise the field is cleared and
the whole text is typed.
-/
import Wayfind.Json.Record

namespace Wayfind

/-- How an element takes a value. -/
inductive FillKind where
  | select
  | typeableInput
  | otherInput
  | contenteditable
  | unknown
deriving DecidableEq, Repr, Inhabited

namespace FillKind

/-- The kinds, with the names that page scripts use for them. -/
def names : List (String × FillKind) := [
  ("select", select), ("typeable-input", typeableInput), ("other-input", otherInput),
  ("contenteditable", contenteditable), ("unknown", unknown)]

/-- The name of a kind. -/
def name : FillKind → String
  | select => "select"
  | typeableInput => "typeable-input"
  | otherInput => "other-input"
  | contenteditable => "contenteditable"
  | unknown => "unknown"

/-- Reads the name of a kind. -/
def reader : Json.Reader FillKind := fun room doc => do
  names.lookup (← Json.Reader.name room doc)

/-- The kind a document names. -/
def ofJson? (doc : Json) : Option FillKind := Json.Reader.ofJson? reader doc

end FillKind

/-- What to do to a field to change its text. -/
structure TypingPlan where
  /-- Clear the field first. -/
  clear : Bool
  text : String
deriving DecidableEq, Repr

/-- The plan that changes one text into another by typing. -/
def TypingPlan.between (current desired : String) : TypingPlan :=
  let held := current.toList
  let wanted := desired.toList
  if held.isPrefixOf wanted && held.length < wanted.length then
    ⟨false, String.ofList (wanted.drop held.length)⟩
  else ⟨true, desired⟩

end Wayfind
