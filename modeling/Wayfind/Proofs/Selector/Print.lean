/-
The text of a structured selector.

A selector tree is printed the way it would be written by hand: fragments as they are,
pseudo nodes with their value in double quotes, blanks around the combinators and behind
the commas.  Not every tree has a text that means it: a fragment may hold only CSS in
which nothing is a separator, without blanks around it, and two fragments may not stand
side by side.  `Printable` is the class of trees the text of which says everything.
-/
import Mathlib.Data.List.Chain
import Wayfind.Selector.Parse

namespace Wayfind.Selector

/-- The text with a backslash before every double quote and every backslash. -/
def escape : List Char → List Char
  | [] => []
  | c :: rest => if c = '"' || c = '\\' then '\\' :: c :: escape rest else c :: escape rest

/-- The text as a string in double quotes. -/
def quoted (cs : List Char) : List Char := '"' :: (escape cs ++ ['"'])

/-- The text of a part. -/
def Part.print : Part → List Char
  | css text => text.toList
  | pseudo node =>
    Piece.pseudoMark ++ node.name.toList ++ '(' :: (quoted node.value.toList ++ [')'])

/-- The text of a compound: its parts, one behind the other. -/
def Compound.print (parts : Compound) : List Char := parts.flatMap Part.print

/-- The text of a link. -/
def Link.print : Link → List Char
  | compound parts => Compound.print parts
  | combinator c => ' ' :: (c.text.toList ++ [' '])

/-- The text of a complex selector. -/
def Complex.print (links : Complex) : List Char := links.flatMap Link.print

/-- The text of a selector. -/
def print (ast : SelectorList) : String :=
  String.ofList ([',', ' '].intercalate (ast.map Complex.print))

/-! ### Trees the text of which says everything -/

/-- The character is CSS in itself, whatever stands around it. -/
def isPlain (c : Char) : Bool := c ∉ ['"', '\'', '[', ']', '(', ')', '\\', '>', ':', ',']

/-- CSS in which nothing is a separator: plain characters and tests of attributes. -/
inductive CssText : List Char → Prop where
  | nil : CssText []
  | plain {c : Char} {rest : List Char} (hc : isPlain c = true) (hrest : CssText rest) :
      CssText (c :: rest)
  /-- The test `[word="value"]`. -/
  | test {word rest : List Char} (value : List Char)
      (hword : ∀ c ∈ word, Piece.isIdentChar c = true) (hrest : CssText rest) :
      CssText ('[' :: (word ++ '=' :: (quoted value ++ ']' :: rest)))

/-- A part that is read back from its text. -/
inductive Part.Printable : Part → Prop where
  /-- A fragment is not empty and has no blanks around it. -/
  | css {text : String} (hne : text.toList ≠ [])
      (hfirst : ∀ c ∈ text.toList.head?, Text.isBlank c = false)
      (hlast : ∀ c ∈ text.toList.getLast?, Text.isBlank c = false)
      (htext : CssText text.toList) : Printable (.css text)
  /-- A pseudo node has a name; its value may be any text. -/
  | pseudo {node : PseudoNode} (hne : node.name.toList ≠ [])
      (hname : ∀ c ∈ node.name.toList, Piece.isNameChar c = true) : Printable (.pseudo node)

/-- The part is a fragment of CSS. -/
def Part.isCss : Part → Bool
  | css _ => true
  | pseudo _ => false

/-- A compound that is read back from its text: no two fragments stand side by side. -/
structure Compound.Printable (parts : Compound) : Prop where
  each : ∀ p ∈ parts, p.Printable
  apart : List.IsChain (fun p q => ¬(p.isCss = true ∧ q.isCss = true)) parts

/-- A complex selector that is read back from its text: compounds with combinators between them. -/
inductive Complex.Printable : Complex → Prop where
  | last {parts : Compound} (hparts : Compound.Printable parts) : Printable [.compound parts]
  | link {parts : Compound} {links : Complex} (c : Combinator) (hparts : Compound.Printable parts)
      (hlinks : Printable links) : Printable (.compound parts :: .combinator c :: links)

/-- The pseudo node a part is. -/
def Part.node? : Part → Option PseudoNode
  | css _ => none
  | pseudo node => some node

/-- The pseudo nodes of a link. -/
def Link.nodes : Link → List PseudoNode
  | compound parts => parts.filterMap Part.node?
  | combinator _ => []

/-- The pseudo nodes of a selector, in order. -/
def nodes (ast : SelectorList) : List PseudoNode := ast.flatMap fun links => links.flatMap Link.nodes

/-- A selector that is read back from its text.  One without any extended syntax is not: it is plain
CSS and stays a text. -/
structure Printable (ast : SelectorList) : Prop where
  nonempty : ast ≠ []
  complexes : ∀ links ∈ ast, Complex.Printable links
  extended : nodes ast ≠ [] ∨ ast.combinators ≠ []

/-! ### Strings -/

/-- Resolving escapes undoes escaping. -/
@[simp] theorem unescape_escape (cs : List Char) : unescape (escape cs) = cs := by
  induction cs with
  | nil => rfl
  | cons c rest ih =>
    by_cases hc : c = '"' ∨ c = '\\'
    · have : escape (c :: rest) = '\\' :: c :: escape rest := by simp [escape, hc]
      rw [this, unescape, ih]
    · push Not at hc
      have : escape (c :: rest) = c :: escape rest := by simp [escape, hc]
      rw [this, unescape.eq_3 _ _ (fun _ _ h _ => hc.2 h), if_neg hc.2, ih]

/-- What stands in quotes stands for itself. -/
@[simp] theorem unquote_quoted (cs : List Char) : unquote (quoted cs) = cs := by
  have hq : isQuote '"' = true := rfl
  simp [unquote, quoted, stripQuotes, hq]

end Wayfind.Selector
