/-
What the pieces of a text say of its structured form.

These facts hold of every list of pieces.  The structured form is read segment by segment:
a comma ends a complex selector, a combinator ends a compound (`complexes_append_comma`,
`complexes_append_combinator`).  It holds the pseudo nodes and the combinators among the pieces,
all of them and in order (`nodes_complexes`, `combinators_complexes`), so what `parse`
says of a selector can be seen from the structured form alone (`parse_eq`).
-/
import Wayfind.Proofs.Selector.Print
import Wayfind.Proofs.Text.Splitting

namespace Wayfind.Selector

/-- The piece belongs to a compound: it is no comma and no combinator. -/
structure Piece.Inner (p : Piece) : Prop where
  comma : p.comma? = none
  combinator : p.combinator? = none

variable {seg ps : List Piece} {links : Complex} {ast : SelectorList}

/-! ### One segment after the other -/

theorem complexes_eq_map (ps : List Piece) :
    complexes ps = (Text.segmentsAt Piece.comma? ps).map complex := by
  simp [complexes, Text.segmentsAt]

/-- A comma ends a complex selector. -/
theorem complexes_append_comma (ps : List Piece) (blanks : List Char) (qs : List Piece) :
    complexes (ps ++ .comma blanks :: qs) = complexes ps ++ complexes qs := by
  have hcomma : Piece.comma? (.comma blanks) = some () := rfl
  rw [complexes_eq_map, Text.segmentsAt_append_cons hcomma, List.map_append, ← complexes_eq_map,
    ← complexes_eq_map]

theorem complexes_of_none (h : ∀ p ∈ ps, p.comma? = none) : complexes ps = [complex ps] := by
  rw [complexes_eq_map, Text.segmentsAt_of_none h]
  rfl

/-- A combinator ends a compound. -/
theorem complex_append_combinator (ps : List Piece) (c : Combinator) (blanks : List Char)
    (qs : List Piece) :
    complex (ps ++ .combinator c blanks :: qs) = complex ps ++ .combinator c :: complex qs := by
  have hcombinator : Piece.combinator? (.combinator c blanks) = some c := rfl
  unfold complex
  rw [Text.splitAt?_append_cons hcombinator]
  simp

theorem complex_of_none (h : ∀ p ∈ ps, p.combinator? = none) :
    complex ps = [.compound (compound ps)] := by
  have hsplit := Text.splitAt?_append h []
  rw [List.append_nil] at hsplit
  rw [complex, hsplit]
  simp [Text.splitAt?]

/-- CSS is gathered into the fragment that is being read. -/
theorem compoundFrom_append (h : ∀ p ∈ seg, p.pseudo? = none) (css : List Char) (rest : List Piece) :
    compoundFrom css (seg ++ rest) = compoundFrom (css ++ seg.flatMap Piece.source) rest := by
  induction seg generalizing css with
  | nil => simp
  | cons p seg ih =>
    rw [List.cons_append, compoundFrom, h p List.mem_cons_self]
    simp only
    rw [ih fun q hq => h q (List.mem_cons_of_mem p hq), List.flatMap_cons, List.append_assoc]

/-- The last complex selector of the one list goes on, behind a combinator, as the first of the
other. -/
def linked (c : Combinator) (first second : SelectorList) : SelectorList :=
  first.dropLast ++ (first.getLast?.getD [] ++ .combinator c :: second.head?.getD []) :: second.tail

theorem complexes_ne_nil (ps : List Piece) : complexes ps ≠ [] := by
  simp [complexes]

theorem Piece.eq_comma {p : Piece} {u : Unit} (h : p.comma? = some u) : ∃ blanks, p = .comma blanks := by
  cases p with
  | comma blanks => exact ⟨blanks, rfl⟩
  | _ => exact absurd h nofun

theorem Piece.eq_combinator {p : Piece} {c : Combinator} (h : p.combinator? = some c) :
    ∃ blanks, p = .combinator c blanks := by
  cases p with
  | combinator c' blanks => exact ⟨blanks, congrArg (Piece.combinator · blanks) (Option.some.inj h)⟩
  | _ => exact absurd h nofun

theorem linked_append {first : SelectorList} (c : Combinator) (before : SelectorList)
    (hfirst : first ≠ []) (second : SelectorList) :
    linked c (before ++ first) second = before ++ linked c first second := by
  unfold linked
  rw [List.dropLast_append_of_ne_nil hfirst, List.getLast?_append_of_ne_nil _ hfirst,
    List.append_assoc]

/-- With a combinator in the middle, only what stands next to it is joined. -/
theorem complexes_append_combinator (ps : List Piece) (c : Combinator) (blanks : List Char)
    (qs : List Piece) :
    complexes (ps ++ .combinator c blanks :: qs) = linked c (complexes ps) (complexes qs) := by
  have hlast : ∀ ps, (∀ p ∈ ps, p.comma? = none) → ∀ qs, (∀ p ∈ qs, p.comma? = none) →
      complexes (ps ++ .combinator c blanks :: qs) =
        [complex ps ++ .combinator c :: complex qs] := by
    intro ps hps qs hqs
    have hall : ∀ p ∈ ps ++ .combinator c blanks :: qs, p.comma? = none := by
      rw [List.forall_mem_append, List.forall_mem_cons]
      exact ⟨hps, rfl, hqs⟩
    rw [complexes_of_none hall, complex_append_combinator]
  induction ps using Text.segments_induction Piece.comma? with
  | last ps hps =>
    rw [complexes_of_none hps]
    rcases Text.segments_cases Piece.comma? qs with hqs | ⟨first, p, _, rest, rfl, hfirst, hp⟩
    · rw [hlast ps hps qs hqs, complexes_of_none hqs]
      rfl
    · obtain ⟨more, rfl⟩ := Piece.eq_comma hp
      have happend : ps ++ .combinator c blanks :: (first ++ .comma more :: rest) =
          ps ++ .combinator c blanks :: first ++ .comma more :: rest := by simp
      rw [happend, complexes_append_comma, hlast ps hps first hfirst, complexes_append_comma,
        complexes_of_none hfirst]
      rfl
  | more first p _ rest hfirst hp ih =>
    obtain ⟨more, rfl⟩ := Piece.eq_comma hp
    rw [List.append_assoc, List.cons_append, complexes_append_comma, ih, complexes_append_comma,
      linked_append c _ (complexes_ne_nil rest)]

/-- A text without separators is one compound. -/
theorem complexes_inner (h : ∀ p ∈ seg, p.Inner) :
    complexes seg = [[.compound (compound seg)]] := by
  rw [complexes_of_none fun p hp => (h p hp).comma, complex_of_none fun p hp => (h p hp).combinator]

/-- A comma behind one compound. -/
theorem complexes_comma (h : ∀ p ∈ seg, p.Inner) (blanks : List Char) :
    complexes (seg ++ .comma blanks :: ps) = [.compound (compound seg)] :: complexes ps := by
  rw [complexes_append_comma, complexes_inner h]
  rfl

/-- A combinator behind one compound. -/
theorem complexes_combinator (h : ∀ p ∈ seg, p.Inner) (c : Combinator) (blanks : List Char)
    (hps : complexes ps = links :: ast) :
    complexes (seg ++ .combinator c blanks :: ps) =
      (.compound (compound seg) :: .combinator c :: links) :: ast := by
  rw [complexes_append_combinator, complexes_inner h, hps]
  rfl

/-! ### Nothing extended is lost -/

theorem nodes_fragment (css : List Char) : (fragment css).filterMap Part.node? = [] := by
  unfold fragment
  split
  · rfl
  · rfl

theorem nodes_compoundFrom (css : List Char) (ps : List Piece) :
    (compoundFrom css ps).filterMap Part.node? = ps.filterMap Piece.pseudo? := by
  induction ps generalizing css with
  | nil => exact nodes_fragment css
  | cons p ps ih =>
    rw [compoundFrom]
    cases hp : p.pseudo? with
    | some node =>
      rw [List.filterMap_append, nodes_fragment, List.filterMap_cons_some hp]
      simp only [List.nil_append, Part.node?, List.filterMap_cons, ih]
    | none => rw [List.filterMap_cons_none hp, ← ih]

theorem nodes_complex (ps : List Piece) :
    (complex ps).flatMap Link.nodes = ps.filterMap Piece.pseudo? := by
  have hsep : ∀ (p : Piece) c, p.combinator? = some c → p.pseudo? = none := by
    intro p c hc
    cases p with
    | combinator => rfl
    | _ => exact absurd hc (by simp [Piece.combinator?])
  rw [← Text.filterMap_splitAt? hsep ps]
  simp [complex, Link.nodes, compound, nodes_compoundFrom, List.flatMap_assoc]

/-- The pseudo nodes of the structured form are those among the pieces. -/
theorem nodes_complexes (ps : List Piece) : nodes (complexes ps) = ps.filterMap Piece.pseudo? := by
  have hsep : ∀ (p : Piece) c, p.comma? = some c → p.pseudo? = none := by
    intro p c hc
    cases p with
    | comma => rfl
    | _ => exact absurd hc (by simp [Piece.comma?])
  rw [← Text.filterMap_splitAt? hsep ps]
  simp [nodes, complexes, nodes_complex, List.flatMap_map]

theorem combinators_complex (ps : List Piece) :
    (complex ps).filterMap Link.combinator? = ps.filterMap Piece.combinator? := by
  have hlinks : ∀ others : List (Combinator × List Piece),
      (others.flatMap fun s => [Link.combinator s.1, .compound (compound s.2)]).filterMap
        Link.combinator? = others.map (·.1) := by
    intro others
    induction others with
    | nil => rfl
    | cons s others ih => simp [List.filterMap_cons, Link.combinator?, ih]
  rw [← Text.separators_splitAt? ps, ← hlinks]
  rfl

/-- The combinators of the structured form are those among the pieces. -/
theorem combinators_complexes (ps : List Piece) :
    (complexes ps).combinators = ps.filterMap Piece.combinator? := by
  have hsep : ∀ (p : Piece) c, p.comma? = some c → p.combinator? = none := by
    intro p c hc
    cases p with
    | comma => rfl
    | _ => exact absurd hc (by simp [Piece.comma?])
  rw [← Text.filterMap_splitAt? hsep ps]
  simp [SelectorList.combinators, complexes, combinators_complex, List.flatMap_map]

/-- The pieces hold extended syntax just when their tree does. -/
theorem any_isExtended (ps : List Piece) :
    ps.any Piece.isExtended = true ↔
      nodes (complexes ps) ≠ [] ∨ (complexes ps).combinators ≠ [] := by
  rw [nodes_complexes, combinators_complexes, ne_eq, ne_eq, List.filterMap_eq_nil_iff,
    List.filterMap_eq_nil_iff, List.any_eq_true]
  simp only [Piece.isExtended, Bool.or_eq_true, Option.isSome_iff_ne_none]
  grind

/-- The pieces ask the accessibility tree just when a node of their tree does. -/
theorem any_aria (ps : List Piece) :
    (ps.any fun p => p.pseudo?.any fun node => node.name == PseudoNode.ariaName) =
      (nodes (complexes ps)).any fun node => node.name == PseudoNode.ariaName := by
  rw [nodes_complexes, List.any_filterMap]
  congr 1

theorem ast_parse (text : String) :
    (parse text).ast =
      if (parse text).isPureCss then none else some (complexes (pieces text.toList)) := rfl

theorem ast_of_pieces {text : String} (h : pieces text.toList = ps) (hext : ps.any Piece.isExtended = true) :
    (parse text).ast = some (complexes ps) := by
  rw [ast_parse, parse, h, hext]
  rfl

theorem isSome_ast_parse (text : String) :
    (parse text).ast.isSome = !(parse text).isPureCss := by
  rw [ast_parse]
  cases (parse text).isPureCss <;> rfl

theorem isPureCss_parse (text : String) : (parse text).isPureCss = false ↔
    nodes (complexes (pieces text.toList)) ≠ [] ∨ (complexes (pieces text.toList)).combinators ≠ [] := by
  rw [← any_isExtended, parse]
  simp only [Bool.not_eq_eq_eq_not, Bool.not_false]

/-- The accessibility tree is asked just when a node of the structured form is so named. -/
theorem hasAria_parse (text : String) : (parse text).hasAria = true ↔
    ∃ ast ∈ (parse text).ast, ∃ node ∈ nodes ast, node.name = PseudoNode.ariaName := by
  have haria : (parse text).hasAria = (nodes (complexes (pieces text.toList))).any fun node =>
      node.name == PseudoNode.ariaName := any_aria _
  rw [haria, ast_parse]
  cases hpure : (parse text).isPureCss with
  | false => simp
  | true =>
    -- Plain CSS has no pseudo nodes, so none of them is so named.
    have hnone : nodes (complexes (pieces text.toList)) = [] := by
      by_contra hne
      exact Bool.false_ne_true (((isPureCss_parse text).mpr (.inl hne)).symm.trans hpure)
    simp [hnone]

/-- A selector with extended syntax is given in its structured form, and what else `parse` says of it
can be seen there, but for the pseudo-classes. -/
theorem parse_eq {text : String} (hread : complexes (pieces text.toList) = ast)
    (hext : nodes ast ≠ [] ∨ ast.combinators ≠ []) :
    parse text =
      { isPureCss := false
        ast := some ast
        hasPseudoClasses := (pieces text.toList).any Piece.isPseudoClass
        hasAria := (nodes ast).any fun node => node.name == PseudoNode.ariaName } := by
  subst hread
  rw [← any_aria, parse]
  simp [(any_isExtended _).mpr hext]

end Wayfind.Selector
