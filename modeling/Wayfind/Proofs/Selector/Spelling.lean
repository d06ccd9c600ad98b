/-
How a selector is spelled.

A list without pseudo nodes spells a text when the text is the fragments of the list, each as it stands
and with nothing but blanks around it, a combinator between two compounds where the list has it, and a
comma between two complex selectors.  A text in which no pseudo node starts is always spelled by the
list read off it (`spelled_parse`): brackets may be open, strings unfinished, and separators stand side
by side, but no character other than a blank is lost, added or moved.

Every piece is a stretch of the text.  Those with blanks of their own, the separators, have nothing but
blanks (`Piece.Spaced`), and the blanks behind a separator go to the compound behind it.
-/
import Wayfind.Proofs.Selector.Fragments
import Wayfind.Proofs.Selector.Joining

namespace Wayfind.Selector

variable {cs blanks : List Char} {seg ps : List Piece}

/-! ### Lists and texts -/

/-- The text of a compound: blanks, or one fragment between blanks. -/
inductive Compound.Spelled : Compound → List Char → Prop where
  | empty {blanks : List Char} (hblanks : Text.Blank blanks) : Spelled [] blanks
  | css (text : String) {before after : List Char} (hbefore : Text.Blank before)
      (hafter : Text.Blank after) : Spelled [.css text] (before ++ (text.toList ++ after))

/-- The text of a complex selector: those of its compounds, with the combinators in between. -/
inductive Complex.Spelled : Complex → List Char → Prop where
  | last {parts : Compound} {cs : List Char} (hparts : parts.Spelled cs) :
      Spelled [.compound parts] cs
  | link {parts : Compound} {links : Complex} {cs rest : List Char} (c : Combinator)
      (hparts : parts.Spelled cs) (hlinks : Spelled links rest) :
      Spelled (.compound parts :: .combinator c :: links) (cs ++ (c.text.toList ++ rest))

/-- The text of a selector: those of its complex selectors, with commas in between. -/
inductive Spelled : SelectorList → List Char → Prop where
  | last {links : Complex} {cs : List Char} (hlinks : links.Spelled cs) : Spelled [links] cs
  | more {links : Complex} {ast : SelectorList} {cs rest : List Char}
      (hlinks : links.Spelled cs) (hast : Spelled ast rest) : Spelled (links :: ast) (cs ++ ',' :: rest)

/-! ### Blanks in front -/

theorem Compound.Spelled.indent {parts : Compound} (h : parts.Spelled cs) (hblanks : Text.Blank blanks) :
    parts.Spelled (blanks ++ cs) := by
  cases h with
  | empty hempty => exact .empty (hblanks.append hempty)
  | css text hbefore hafter =>
    rw [← List.append_assoc]
    exact .css text (hblanks.append hbefore) hafter

theorem Complex.Spelled.indent {links : Complex} (h : links.Spelled cs) (hblanks : Text.Blank blanks) :
    links.Spelled (blanks ++ cs) := by
  cases h with
  | last hparts => exact .last (hparts.indent hblanks)
  | link c hparts hlinks =>
    rw [← List.append_assoc]
    exact .link c (hparts.indent hblanks) hlinks

theorem Spelled.indent {ast : SelectorList} (h : Spelled ast cs) (hblanks : Text.Blank blanks) :
    Spelled ast (blanks ++ cs) := by
  cases h with
  | last hlinks => exact .last (hlinks.indent hblanks)
  | more hlinks hast =>
    rw [← List.append_assoc]
    exact .more (hlinks.indent hblanks) hast

/-! ### Pieces -/

/-- What a separator has behind it is blank. -/
def Piece.Spaced : Piece → Prop
  | combinator _ blanks => Text.Blank blanks
  | comma blanks => Text.Blank blanks
  | _ => True

theorem Piece.blank_cutBlanks (cs : List Char) : Text.Blank (cutBlanks cs).1 :=
  fun _ hc => List.mem_takeWhile_imp hc

theorem Piece.spaced_next (c : Char) (rest : List Char) : (next c rest).1.Spaced := by
  unfold next
  split
  case h_6 => exact blank_cutBlanks _
  case h_7 => exact blank_cutBlanks _
  case h_8 => unfold cutPseudo; split <;> trivial
  case h_10 => unfold cutPseudoClass; split <;> trivial
  case h_11 => exact blank_cutBlanks _
  all_goals trivial

theorem spaced_pieces (cs : List Char) : ∀ p ∈ pieces cs, p.Spaced := by
  fun_induction pieces cs with
  | case1 => exact fun p hp => absurd hp List.not_mem_nil
  | case2 c rest ih => exact List.forall_mem_cons.mpr ⟨Piece.spaced_next c rest, ih⟩

/-- A pseudo node starts with its mark, so a text without the mark has none. -/
theorem pseudo?_of_unmarked (h : ¬ Piece.pseudoMark <:+: cs) : ∀ p ∈ pieces cs, p.pseudo? = none := by
  intro p hp
  cases p with
  | pseudo name argument closed =>
    refine absurd ?_ h
    obtain ⟨before, after, hsplit⟩ := List.append_of_mem hp
    refine ⟨before.flatMap Piece.source, name ++ argument ++ after.flatMap Piece.source, ?_⟩
    rw [← sources_pieces cs, hsplit]
    simp [Piece.source, List.flatMap_append, List.flatMap_cons]
  | _ => rfl

/-! ### From the compound to the list -/

theorem spelled_compound (h : ∀ p ∈ seg, p.pseudo? = none) :
    (compound seg).Spelled (seg.flatMap Piece.source) := by
  have hall : compound seg = fragment (seg.flatMap Piece.source) := by
    have hfrom := compoundFrom_append h [] []
    rwa [List.append_nil] at hfrom
  rw [hall, fragment]
  split
  · rename_i hblank
    exact .empty (Text.trim_eq_nil_iff.mp hblank)
  · obtain ⟨before, after, hbefore, hafter, hsplit⟩ := Text.exists_trim (seg.flatMap Piece.source)
    have hspelled := Compound.Spelled.css (String.ofList (Text.trim (seg.flatMap Piece.source))) hbefore hafter
    rwa [String.toList_ofList, ← hsplit] at hspelled

theorem spelled_complex (h : ∀ p ∈ ps, p.pseudo? = none) (hspaced : ∀ p ∈ ps, p.Spaced)
    (hcomma : ∀ p ∈ ps, p.comma? = none) : (complex ps).Spelled (ps.flatMap Piece.source) := by
  induction ps using Text.segments_induction Piece.combinator? with
  | last ps hps =>
    rw [complex_of_none hps]
    exact .last (spelled_compound h)
  | more first p c rest hfirst hp ih =>
    obtain ⟨blanks, rfl⟩ := Piece.eq_combinator hp
    rw [List.forall_mem_append, List.forall_mem_cons] at h hspaced hcomma
    have hrest := (ih h.2.2 hspaced.2.2 hcomma.2.2).indent hspaced.2.1
    rw [complex_append_combinator, complex_of_none hfirst, List.flatMap_append, List.flatMap_cons,
      Piece.source, List.append_assoc]
    exact .link c (spelled_compound h.1) hrest

theorem spelled_complexes (h : ∀ p ∈ ps, p.pseudo? = none) (hspaced : ∀ p ∈ ps, p.Spaced) :
    Spelled (complexes ps) (ps.flatMap Piece.source) := by
  induction ps using Text.segments_induction Piece.comma? with
  | last ps hps =>
    rw [complexes_of_none hps]
    exact .last (spelled_complex h hspaced hps)
  | more first p _ rest hfirst hp ih =>
    obtain ⟨blanks, rfl⟩ := Piece.eq_comma hp
    rw [List.forall_mem_append, List.forall_mem_cons] at h hspaced
    have hrest := (ih h.2.2 hspaced.2.2).indent hspaced.2.1
    rw [complexes_append_comma, complexes_of_none hfirst, List.flatMap_append, List.flatMap_cons]
    exact .more (spelled_complex h.1 hspaced.1 hfirst) hrest

/-! ### Any text -/

/-- A text in which no pseudo node starts is spelled by the list read off it, which is the one that is
given unless the text is plain CSS. -/
theorem spelled_parse {text : String} (h : ¬ Piece.pseudoMark <:+: text.toList) :
    Spelled (listOf text) text.toList ∧ ∀ ast ∈ (parse text).ast, Spelled ast text.toList := by
  have hspelled : Spelled (listOf text) text.toList := by
    have hpieces := spelled_complexes (pseudo?_of_unmarked h) (spaced_pieces text.toList)
    rwa [sources_pieces] at hpieces
  refine ⟨hspelled, fun ast hast => ?_⟩
  rw [ast_parse] at hast
  split at hast
  · exact absurd hast nofun
  · exact Option.some.inj hast ▸ hspelled

/-- A string and a group are open, a colon stands alone, five signs follow each other, and so do two
commas; the list spells it all. -/
theorem spelled_parse_torn : ¬ Piece.pseudoMark <:+: "a >>>>> : ,,b(\"c >>> ".toList ∧
    Spelled [[.compound [.css "a"], .combinator .child, .compound [.css "> :"]], [.compound []],
      [.compound [.css "b(\"c >>>"]]] "a >>>>> : ,,b(\"c >>> ".toList := by
  have hmark : ¬ Piece.pseudoMark <:+: "a >>>>> : ,,b(\"c >>> ".toList := by
    rw [← Text.occursIn_iff]
    decide
  have hlist : listOf "a >>>>> : ,,b(\"c >>> " =
      [[.compound [.css "a"], .combinator .child, .compound [.css "> :"]], [.compound []],
        [.compound [.css "b(\"c >>>"]]] := by
    cbv
  exact ⟨hmark, hlist ▸ (spelled_parse hmark).1⟩

end Wayfind.Selector
