/-
The structured form of a selector text.

The pieces are split at the commas into complex selectors and at the combinators into
compounds.  In a compound, the CSS between two pseudo nodes is one fragment, without
the blanks around it; an empty fragment leaves nothing behind.  A text without
combinators and pseudo nodes is plain CSS and is left to the page as it stands.
-/
import Wayfind.Selector.Piece
import Wayfind.Text.Split

namespace Wayfind.Selector

/-- The value an argument in brackets gives a pseudo node. -/
def argumentValue (argument : List Char) (closed : Bool) : List Char :=
  let inner := argument.drop 1
  unquote (Text.trim (if closed then inner.dropLast else inner))

namespace Piece

/-- The piece is a comma. -/
def comma? : Piece → Option Unit
  | comma _ => some ()
  | _ => none

/-- The combinator a piece is. -/
def combinator? : Piece → Option Combinator
  | combinator c _ => some c
  | _ => none

/-- The pseudo node a piece is. -/
def pseudo? : Piece → Option PseudoNode
  | pseudo name argument closed =>
    some ⟨String.ofList name, String.ofList (argumentValue argument closed)⟩
  | _ => none

/-- The piece is a pseudo-class. -/
def isPseudoClass : Piece → Bool
  | pseudoClass _ => true
  | _ => false

/-- The piece is extended syntax. -/
def isExtended (p : Piece) : Bool := p.combinator?.isSome || p.pseudo?.isSome

end Piece

/-- The fragment of some CSS: nothing when there are only blanks. -/
def fragment (css : List Char) : Compound :=
  if Text.trim css = [] then [] else [.css (String.ofList (Text.trim css))]

/-- The compound of a segment without commas and combinators, behind CSS already read. -/
def compoundFrom (css : List Char) : List Piece → Compound
  | [] => fragment css
  | p :: rest =>
    match p.pseudo? with
    | some node => fragment css ++ .pseudo node :: compoundFrom [] rest
    | none => compoundFrom (css ++ p.source) rest

/-- The compound of a segment without commas and combinators. -/
def compound (segment : List Piece) : Compound := compoundFrom [] segment

/-- The complex selector of a segment without commas. -/
def complex (segment : List Piece) : Complex :=
  let (first, others) := Text.splitAt? Piece.combinator? segment
  .compound (compound first) ::
    others.flatMap fun (c, next) => [.combinator c, .compound (compound next)]

/-- The list of complex selectors of all pieces. -/
def complexes (ps : List Piece) : SelectorList :=
  let (first, others) := Text.splitAt? Piece.comma? ps
  complex first :: others.map fun (_, next) => complex next

/-- What is known of a selector once it has been read. -/
structure Parsed where
  /-- No combinator and no pseudo node occurs. -/
  isPureCss : Bool
  /-- The structured form, unless the selector is plain CSS. -/
  ast : Option SelectorList
  hasPseudoClasses : Bool
  hasAria : Bool
deriving DecidableEq, Repr

/-- Reads a selector text; every text can be read. -/
def parse (text : String) : Parsed :=
  let ps := pieces text.toList
  let pure := !ps.any Piece.isExtended
  { isPureCss := pure
    ast := if pure then none else some (complexes ps)
    hasPseudoClasses := ps.any Piece.isPseudoClass
    hasAria := ps.any fun p => p.pseudo?.any fun node => node.name == PseudoNode.ariaName }

end Wayfind.Selector
