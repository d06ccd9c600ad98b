/-
The pieces a selector text falls into.

Most pieces are CSS that is copied as it stands: a single character, an escape, a
string, a bracketed group, a pseudo-class with its argument.  The others carry the
extended syntax: combinators, pseudo nodes, and the comma between complex selectors.
The sources of the pieces, put together, are the text: `sources_pieces`.
-/
import Wayfind.Selector.Basic
import Wayfind.Selector.Span
import Wayfind.Text.Blank

namespace Wayfind.Selector

/-- A piece of selector text. -/
inductive Piece where
  /-- CSS that is copied. -/
  | css (text : List Char)
  /-- A pseudo-class, copied too. -/
  | pseudoClass (text : List Char)
  /-- A pseudo node: its name, and its argument in brackets, empty when there is none. -/
  | pseudo (name argument : List Char) (closed : Bool)
  /-- A combinator and the blanks behind it. -/
  | combinator (c : Combinator) (blanks : List Char)
  /-- A comma and the blanks behind it. -/
  | comma (blanks : List Char)
deriving DecidableEq, Repr

namespace Piece

/-- How every pseudo node starts. -/
def pseudoMark : List Char := [':', ':', '-', 'p', '-']

/-- The text a piece was made from. -/
def source : Piece → List Char
  | css text => text
  | pseudoClass text => text
  | pseudo name argument _ => pseudoMark ++ name ++ argument
  | combinator c blanks => c.text.toList ++ blanks
  | comma blanks => ',' :: blanks

/-- A character of a pseudo node's name. -/
def isNameChar (c : Char) : Bool := c.isAlphanum || c = '-'

/-- A character of a pseudo-class's name. -/
def isIdentChar (c : Char) : Bool := c.isAlphanum || c = '-' || c = '_'

/-- Cuts the blanks off the start of a text. -/
def cutBlanks (cs : List Char) : List Char × List Char :=
  (cs.takeWhile Text.isBlank, cs.dropWhile Text.isBlank)

/-- Cuts the argument in parentheses off the start of a text. -/
def cutArgument : List Char → GroupCut
  | '(' :: rest => cutGroup '(' ')' ('(' :: rest)
  | cs => ⟨[], cs, false⟩

/-- The pseudo node behind its mark; without a name the mark is CSS. -/
def cutPseudo (cs : List Char) : Piece × List Char :=
  if cs.takeWhile isNameChar = [] then (css pseudoMark, cs)
  else
    let cut := cutArgument (cs.dropWhile isNameChar)
    (pseudo (cs.takeWhile isNameChar) cut.taken cut.closed, cut.left)

/-- The pseudo-class behind its colon; without a name the colon is CSS. -/
def cutPseudoClass (cs : List Char) : Piece × List Char :=
  if cs.takeWhile isIdentChar = [] then (css [':'], cs)
  else
    let cut := cutArgument (cs.dropWhile isIdentChar)
    (pseudoClass (':' :: (cs.takeWhile isIdentChar ++ cut.taken)), cut.left)

/-- The combinator of a kind, with the blanks behind it. -/
def cutCombinator (c : Combinator) (cs : List Char) : Piece × List Char :=
  (combinator c (cutBlanks cs).1, (cutBlanks cs).2)

/-- The group a text starts with, as CSS. -/
def cutCssGroup (opening closing : Char) (cs : List Char) : Piece × List Char :=
  let cut := cutGroup opening closing cs
  (css cut.taken, cut.left)

/-- Cuts the first piece off the text `c :: rest`. -/
def next (c : Char) (rest : List Char) : Piece × List Char :=
  match c, rest with
  | '"', rest => (css ('"' :: (cutString '"' rest).1), (cutString '"' rest).2)
  | '\'', rest => (css ('\'' :: (cutString '\'' rest).1), (cutString '\'' rest).2)
  | '[', rest => cutCssGroup '[' ']' ('[' :: rest)
  | '(', rest => cutCssGroup '(' ')' ('(' :: rest)
  | '\\', d :: rest => (css ['\\', d], rest)
  | '>', '>' :: '>' :: '>' :: rest => cutCombinator .child rest
  | '>', '>' :: '>' :: rest => cutCombinator .descendant rest
  | ':', ':' :: '-' :: 'p' :: '-' :: rest => cutPseudo rest
  | ':', ':' :: rest => (css [':', ':'], rest)
  | ':', rest => cutPseudoClass rest
  | ',', rest => (comma (cutBlanks rest).1, (cutBlanks rest).2)
  | c, rest => (css [c], rest)

/-! ### A piece and the rest are the text -/

theorem cutBlanks_append (cs : List Char) : (cutBlanks cs).1 ++ (cutBlanks cs).2 = cs :=
  List.takeWhile_append_dropWhile

theorem cutArgument_append (cs : List Char) :
    (cutArgument cs).taken ++ (cutArgument cs).left = cs := by
  unfold cutArgument
  split
  · exact cutGroup_append _ _ _
  · rfl

theorem cutPseudo_append (cs : List Char) :
    (cutPseudo cs).1.source ++ (cutPseudo cs).2 = pseudoMark ++ cs := by
  unfold cutPseudo
  split
  · rfl
  · simp only [source, List.append_assoc, cutArgument_append, List.takeWhile_append_dropWhile]

theorem cutPseudoClass_append (cs : List Char) :
    (cutPseudoClass cs).1.source ++ (cutPseudoClass cs).2 = ':' :: cs := by
  unfold cutPseudoClass
  split
  · rfl
  · simp only [source, List.cons_append, List.append_assoc, cutArgument_append,
      List.takeWhile_append_dropWhile]

theorem cutCombinator_append (c : Combinator) (cs : List Char) :
    (cutCombinator c cs).1.source ++ (cutCombinator c cs).2 = c.text.toList ++ cs := by
  simp only [cutCombinator, source, List.append_assoc, cutBlanks_append]

/-- The first piece and the text behind it are the text. -/
theorem next_append (c : Char) (rest : List Char) :
    (next c rest).1.source ++ (next c rest).2 = c :: rest := by
  unfold next
  split
  · simp only [source, List.cons_append, cutString_append]
  · simp only [source, List.cons_append, cutString_append]
  · exact cutGroup_append _ _ _
  · exact cutGroup_append _ _ _
  · rfl
  · exact cutCombinator_append _ _
  · exact cutCombinator_append _ _
  · exact cutPseudo_append _
  · rfl
  · exact cutPseudoClass_append _
  · simp only [source, List.cons_append, cutBlanks_append]
  · rfl

/-- A piece is never empty. -/
theorem next_source_ne_nil (c : Char) (rest : List Char) : (next c rest).1.source ≠ [] := by
  unfold next
  split
  all_goals first
    | exact cutGroupAt_taken_ne_nil _ _ _ _ (List.cons_ne_nil _ _)
    | (unfold cutPseudo; split <;> simp [source, pseudoMark])
    | (unfold cutPseudoClass; split <;> simp [source])
    | simp [source, cutCombinator, Combinator.text]

/-- Behind a piece less text is left. -/
theorem next_left_lt (c : Char) (rest : List Char) :
    (next c rest).2.length < (c :: rest).length := by
  have h := congrArg List.length (next_append c rest)
  have hne := List.length_pos_iff.2 (next_source_ne_nil c rest)
  rw [List.length_append] at h
  omega

end Piece

/-- The pieces of a text, in order. -/
def pieces : List Char → List Piece
  | [] => []
  | c :: rest => (Piece.next c rest).1 :: pieces (Piece.next c rest).2
termination_by cs => cs.length
decreasing_by exact Piece.next_left_lt c rest

@[simp] theorem pieces_nil : pieces [] = [] := by rw [pieces]

theorem pieces_cons (c : Char) (rest : List Char) :
    pieces (c :: rest) = (Piece.next c rest).1 :: pieces (Piece.next c rest).2 := by rw [pieces]

/-- The sources of the pieces, put together, are the text. -/
theorem sources_pieces (cs : List Char) : (pieces cs).flatMap Piece.source = cs := by
  fun_induction pieces cs with
  | case1 => rfl
  | case2 c rest ih => rw [List.flatMap_cons, ih, Piece.next_append]

end Wayfind.Selector
