/-
The shape of everything the reader of selectors returns.

The text is arbitrary: brackets may be open, combinators may stand first, last or side by
side, and a comma may have nothing on either side.  Whatever the text, the tree is
well formed, and this is what the matcher in the page relies on.  The proof follows the
reader: a piece has a proper name because it was cut so (`Piece.Named`), and each level of
the tree, from the fragment up, keeps what the level below established.
-/
import Wayfind.Proofs.Selector.Reading
import Wayfind.Proofs.Text.Blanks

namespace Wayfind.Selector

variable {ps : List Piece}

/-! ### Well formed trees -/

/-- A pseudo node with a name: letters, digits and hyphens of ASCII, at least one. -/
structure PseudoNode.Named (node : PseudoNode) : Prop where
  nonempty : node.name ≠ ""
  chars : ∀ c ∈ node.name.toList, c.isAlphanum = true ∨ c = '-'

/-- A part the matcher can use. -/
inductive Part.WellFormed : Part → Prop where
  | css {text : String} (htext : Text.Trimmed text.toList) : WellFormed (.css text)
  | pseudo {node : PseudoNode} (hnode : node.Named) : WellFormed (.pseudo node)

/-- Two parts may stand side by side: they are not both fragments of CSS. -/
def Part.Apart (p q : Part) : Prop := ¬(p.isCss = true ∧ q.isCss = true)

/-- A compound of such parts without two fragments side by side. -/
structure Compound.WellFormed (parts : Compound) : Prop where
  each : ∀ p ∈ parts, p.WellFormed
  apart : List.IsChain Part.Apart parts

/-- Compounds with one combinator between two of them, at least one compound. -/
inductive Complex.WellFormed : Complex → Prop where
  | last {parts : Compound} (hparts : Compound.WellFormed parts) : WellFormed [.compound parts]
  | link {parts : Compound} {links : Complex} (c : Combinator)
      (hparts : Compound.WellFormed parts) (hlinks : WellFormed links) :
      WellFormed (.compound parts :: .combinator c :: links)

/-- A selector the matcher can use: at least one complex selector, and something in it that the
page's own engine cannot read. -/
structure WellFormed (ast : SelectorList) : Prop where
  nonempty : ast ≠ []
  complexes : ∀ links ∈ ast, Complex.WellFormed links
  extended : nodes ast ≠ [] ∨ ast.combinators ≠ []

/-! ### Pieces -/

/-- If the piece is a pseudo node, it has a name. -/
def Piece.Named (p : Piece) : Prop := ∀ node ∈ p.pseudo?, node.Named

theorem Piece.named_cutPseudo (cs : List Char) : (cutPseudo cs).1.Named := by
  unfold cutPseudo
  split
  · intro node hnode
    cases hnode
  · next hne =>
    intro node hnode
    obtain rfl := Option.some.inj hnode
    refine ⟨fun h => hne (String.ofList_eq_empty_iff.mp h), fun c hc => ?_⟩
    rw [String.toList_ofList] at hc
    have hchar := List.all_takeWhile (p := isNameChar) (l := cs)
    simpa [isNameChar] using List.all_eq_true.mp hchar c hc

theorem Piece.named_cutPseudoClass (cs : List Char) : (cutPseudoClass cs).1.Named := by
  unfold cutPseudoClass
  split <;> intro node hnode <;> cases hnode

/-- The reader cuts no pseudo node without a name. -/
theorem Piece.named_next (c : Char) (rest : List Char) : (next c rest).1.Named := by
  unfold next
  split
  case h_8 => exact named_cutPseudo _
  case h_10 => exact named_cutPseudoClass _
  all_goals intro node hnode; cases hnode

theorem named_pieces (cs : List Char) : ∀ p ∈ pieces cs, p.Named := by
  fun_induction pieces cs with
  | case1 => simp
  | case2 c rest ih => exact List.forall_mem_cons.mpr ⟨Piece.named_next c rest, ih⟩

/-! ### From the fragment to the list -/

theorem wellFormed_fragment (css : List Char) : ∀ p ∈ fragment css, p.WellFormed := by
  unfold fragment
  split
  · simp
  · next hne =>
    rw [List.forall_mem_singleton]
    exact .css (by rw [String.toList_ofList]; exact Text.trimmed_trim hne)

/-- A pseudo node keeps the fragment before it from whatever is behind it. -/
theorem apart_fragment_pseudo (css : List Char) (node : PseudoNode) {parts : Compound}
    (h : List.IsChain Part.Apart parts) :
    List.IsChain Part.Apart (fragment css ++ .pseudo node :: parts) := by
  have hnode : List.IsChain Part.Apart (.pseudo node :: parts) :=
    List.IsChain.cons h fun p _ hcss => absurd hcss.1 Bool.false_ne_true
  unfold fragment
  split
  · exact hnode
  · exact List.IsChain.cons_cons (fun hcss => absurd hcss.2 Bool.false_ne_true) hnode

/-- The CSS already read may be anything: it becomes one fragment at the next pseudo node. -/
theorem wellFormed_compoundFrom (css : List Char) (h : ∀ p ∈ ps, p.Named) :
    Compound.WellFormed (compoundFrom css ps) := by
  induction ps generalizing css with
  | nil =>
    refine ⟨wellFormed_fragment css, ?_⟩
    rw [compoundFrom, fragment]
    split
    · exact .nil
    · exact .singleton _
  | cons p ps ih =>
    rw [List.forall_mem_cons] at h
    rw [compoundFrom]
    cases hp : p.pseudo? with
    | none => exact ih _ h.2
    | some node =>
      have hrest := ih [] h.2
      refine ⟨?_, apart_fragment_pseudo css node hrest.apart⟩
      rw [List.forall_mem_append, List.forall_mem_cons]
      exact ⟨wellFormed_fragment css, .pseudo (h.1 node hp), hrest.each⟩

theorem wellFormed_complex (h : ∀ p ∈ ps, p.Named) : Complex.WellFormed (complex ps) := by
  obtain ⟨hfirst, hothers⟩ := Text.forall_splitAt? Piece.combinator? h
  have hsplit : complex ps = .compound (compound (Text.splitAt? Piece.combinator? ps).1) ::
      (Text.splitAt? Piece.combinator? ps).2.flatMap fun s =>
        [.combinator s.1, .compound (compound s.2)] := rfl
  rw [hsplit]
  clear hsplit
  generalize (Text.splitAt? Piece.combinator? ps).2 = others at hothers
  generalize (Text.splitAt? Piece.combinator? ps).1 = first at hfirst
  induction others generalizing first with
  | nil => exact .last (wellFormed_compoundFrom [] hfirst)
  | cons s others ih =>
    rw [List.forall_mem_cons] at hothers
    exact .link s.1 (wellFormed_compoundFrom [] hfirst) (ih hothers.2 s.2 hothers.1)

theorem wellFormed_complexes (h : ∀ p ∈ ps, p.Named) :
    ∀ links ∈ complexes ps, Complex.WellFormed links := by
  obtain ⟨hfirst, hothers⟩ := Text.forall_splitAt? Piece.comma? h
  rw [complexes, List.forall_mem_cons]
  refine ⟨wellFormed_complex hfirst, fun links hlinks => ?_⟩
  obtain ⟨s, hs, rfl⟩ := List.mem_map.mp hlinks
  exact wellFormed_complex (hothers s hs)

/-! ### Any text -/

/-- Whatever the text, what `parse` returns is well formed: a tree is given just for what is not plain
CSS, the tree has its shape, and the accessibility tree is asked for just when a node of it is so named. -/
theorem parse_wellFormed (text : String) :
    ((parse text).ast.isSome = true ↔ (parse text).isPureCss = false) ∧
      (∀ ast ∈ (parse text).ast, WellFormed ast) ∧
      ((parse text).hasAria = true ↔
        ∃ ast ∈ (parse text).ast, ∃ node ∈ nodes ast, node.name = "aria") := by
  refine ⟨by simp [isSome_ast_parse], fun ast hast => ?_, hasAria_parse text⟩
  rw [ast_parse] at hast
  split at hast
  · cases hast
  · next hpure =>
    cases hast
    exact ⟨List.cons_ne_nil _ _, wellFormed_complexes (named_pieces _),
      (isPureCss_parse text).mp (Bool.eq_false_iff.mpr hpure)⟩

end Wayfind.Selector
