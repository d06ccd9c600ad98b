/-
The structured form of an extended selector.

A selector is a list of complex selectors, one per comma.  A complex selector is a
chain of compounds joined by combinators that cross shadow roots; a compound mixes
CSS fragments, which the page's own engine reads, with pseudo nodes, which it cannot.
-/

namespace Wayfind.Selector

/-- What joins two compounds. -/
inductive Combinator where
  /-- Any descendant, through shadow roots. -/
  | descendant
  /-- The children of the shadow root itself. -/
  | child
deriving DecidableEq, Repr

/-- The text of a combinator. -/
def Combinator.text : Combinator → String
  | descendant => ">>>"
  | child => ">>>>"

/-- The combinator with a given text. -/
def Combinator.ofText? (text : String) : Option Combinator :=
  if text = ">>>" then some .descendant
  else if text = ">>>>" then some .child
  else none

/-- The pseudo node `::-p-name(value)`. -/
structure PseudoNode where
  name : String
  value : String
deriving DecidableEq, Repr

/-- The name of the pseudo node that asks the accessibility tree. -/
def PseudoNode.ariaName : String := "aria"

/-- A part of a compound. -/
inductive Part where
  | css (text : String)
  | pseudo (node : PseudoNode)
deriving DecidableEq, Repr

/-- Parts that hold of one element together. -/
abbrev Compound := List Part

/-- A link of a complex selector. -/
inductive Link where
  | compound (parts : Compound)
  | combinator (c : Combinator)
deriving DecidableEq, Repr

/-- The combinator a link is. -/
def Link.combinator? : Link → Option Combinator
  | compound _ => none
  | combinator c => some c

/-- Compounds with combinators between them. -/
abbrev Complex := List Link

end Wayfind.Selector

namespace Wayfind

/-- A selector: complex selectors, any of which may match. -/
abbrev SelectorList := List Selector.Complex

/-- The combinators of a selector, in order. -/
def SelectorList.combinators (list : SelectorList) : List Selector.Combinator :=
  list.flatMap fun complex => complex.filterMap Selector.Link.combinator?

end Wayfind
