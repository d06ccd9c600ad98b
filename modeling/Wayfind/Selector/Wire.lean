/-
The document form of a structured selector, which the matcher in the page reads.

Lists are arrays; a combinator and a CSS fragment are bare strings, a pseudo node is
an object.  The position tells a combinator from a fragment: one stands beside
compounds, the other inside one.  Reading accepts the other spellings of a record and
of a name as well: `["text","x"]` for a pseudo node, an object with the one member
`">>>": null` for a combinator.
-/
import Wayfind.Selector.Parse
import Wayfind.Json.Record
import Wayfind.Json.Writer

namespace Wayfind

namespace Selector

open Json (Reader)

/-- The document of a part. -/
def Part.toJson : Part → Json
  | .css text => .string text
  | .pseudo node => .object [("name", .string node.name), ("value", .string node.value)]

/-- The document of a link. -/
def Link.toJson : Link → Json
  | .compound parts => .array (parts.map Part.toJson)
  | .combinator c => .string c.text

/-- Reads a pseudo node. -/
def PseudoNode.reader : Reader PseudoNode := fun room doc => do
  let fs ← Reader.fields ["name", "value"] room doc
  return ⟨← fs.required "name" Reader.string, ← fs.required "value" Reader.string⟩

/-- Reads a part. -/
def Part.reader : Reader Part := fun room doc =>
  match Reader.string room doc with
  | some text => some (.css text)
  | none => (PseudoNode.reader room doc).map .pseudo

/-- Reads a combinator. -/
def Combinator.reader : Reader Combinator := fun room doc => do
  Combinator.ofText? (← Reader.name room doc)

/-- Reads a link; it is read as a whole before it is told apart. -/
def Link.reader : Reader Link := fun room doc => do
  let _ ← doc.toJson? room
  match Combinator.reader room doc with
  | some c => return .combinator c
  | none => (Reader.list Part.reader room doc).map .compound

end Selector

namespace SelectorList

open Json (Reader)

/-- The document of a selector. -/
def toJson (list : SelectorList) : Json :=
  .array (list.map fun complex => .array (complex.map Selector.Link.toJson))

/-- The text of a selector's document. -/
def toText (list : SelectorList) : String := (toJson list).compact

/-- Reads the document of a selector. -/
def reader : Reader SelectorList := Reader.list (Reader.list Selector.Link.reader)

/-- The selector whose document has this text. -/
def ofText? (text : String) : Option SelectorList := Reader.ofText? reader text

end SelectorList

namespace Selector.Parsed

/-- The text handed to the matcher in the page, when the selector needs it. -/
def astText (p : Parsed) : Option String := p.ast.map SelectorList.toText

/-- The document that reports what is known of a selector. -/
def report (p : Parsed) : Json :=
  .object [
    ("is_pure_css", .bool p.isPureCss),
    ("ast", Json.orNull (p.ast.map SelectorList.toJson)),
    ("has_pseudo_classes", .bool p.hasPseudoClasses),
    ("has_aria", .bool p.hasAria)]

end Selector.Parsed

end Wayfind
