/-
Reading undoes printing.

A printable selector is read back from its text, part for part (`parse_print`).  The
induction runs over the links, from the back: what stands behind a separator reads as the
rest of the selector.  One thing keeps this from being a plain induction over the text:
a separator takes the blanks behind it along, and when the next compound is empty, those
are the blanks before the next combinator.  So a text has to be read back both as it
stands and without the blanks it starts with; that is `ReadsBack`.
-/
import Wayfind.Proofs.Selector.Cutting
import Wayfind.Proofs.Selector.Reading

namespace Wayfind.Selector

/-! ### Fragments and compounds -/

theorem dropWhile_of_head? {p : Char → Bool} {cs : List Char} (h : ∀ c ∈ cs.head?, p c = false) :
    cs.dropWhile p = cs := by
  cases cs with
  | nil => rfl
  | cons c cs => exact List.dropWhile_cons_of_neg (by simp [h c rfl])

/-- The pieces of a part. -/
def Part.pieces : Part → List Piece
  | css text => Selector.pieces text.toList
  | pseudo node => [.pseudo node.name.toList ('(' :: (quoted node.value.toList ++ [')'])) true]

/-- The pieces of a compound. -/
def Compound.pieces (parts : Compound) : List Piece := parts.flatMap Part.pieces

/-- What may stand between a compound and a separator: nothing, or one blank. -/
def Gap (gap : List Piece) : Prop := gap = [] ∨ gap = [.css [' ']]

variable {p : Part} {parts : Compound} {links : Complex} {ast : SelectorList}
  {gap ps : List Piece} {cs : List Char}

theorem pieces_part (h : p.Printable) (rest : List Char) :
    pieces (p.print ++ rest) = p.pieces ++ pieces rest := by
  cases h with
  | css _ _ _ htext => exact pieces_append htext rest
  | pseudo hne hname => exact pieces_pseudo hne hname rest

theorem pieces_compound (h : Compound.Printable parts) (rest : List Char) :
    pieces (parts.print ++ rest) = parts.pieces ++ pieces rest := by
  have heach := h.each
  clear h
  induction parts with
  | nil => rfl
  | cons p parts ih =>
    have hprint : Compound.print (p :: parts) ++ rest = p.print ++ (Compound.print parts ++ rest) := by
      simp [Compound.print]
    have hpieces : Compound.pieces (p :: parts) = p.pieces ++ Compound.pieces parts := by
      simp [Compound.pieces]
    rw [hprint, pieces_part (heach p List.mem_cons_self),
      ih fun q hq => heach q (List.mem_cons_of_mem p hq), hpieces, List.append_assoc]

/-- A pseudo node ends the fragment before it. -/
theorem compoundFrom_pseudo (css name argument : List Char) (closed : Bool) (rest : List Piece) :
    compoundFrom css (.pseudo name argument closed :: rest) =
      fragment css ++ compoundFrom [] (.pseudo name argument closed :: rest) := by
  simp [compoundFrom, Piece.pseudo?, fragment, Text.trim, Text.trimStart, Text.trimEnd]

theorem argumentValue_quoted (value : List Char) :
    argumentValue ('(' :: (quoted value ++ [')'])) true = value := by
  have htrim : Text.trim (quoted value) = quoted value := by
    rw [Text.trim, Text.trimStart, dropWhile_of_head? (by simp [quoted]; decide), Text.trimEnd,
      dropWhile_of_head? (by simp [quoted]; decide), List.reverse_reverse]
  simp only [argumentValue, List.drop_succ_cons, List.drop_zero, if_true, List.dropLast_concat]
  rw [htrim, unquote_quoted]

/-- A fragment without blanks around it is read as it stands, with or without a blank behind it. -/
theorem fragment_gap {text : String} (hne : text.toList ≠ [])
    (hfirst : ∀ c ∈ text.toList.head?, Text.isBlank c = false)
    (hlast : ∀ c ∈ text.toList.getLast?, Text.isBlank c = false) (hgap : Gap gap) :
    fragment (text.toList ++ gap.flatMap Piece.source) = [.css text] := by
  have hend : Text.trimEnd text.toList = text.toList := by
    rw [Text.trimEnd, dropWhile_of_head? (by rwa [List.head?_reverse]), List.reverse_reverse]
  have htrim : Text.trim (text.toList ++ gap.flatMap Piece.source) = text.toList := by
    rcases hgap with rfl | rfl
    · rw [List.flatMap_nil, List.append_nil, Text.trim, Text.trimStart, dropWhile_of_head? hfirst,
        hend]
    · have hstart : Text.trimStart (text.toList ++ [' ']) = text.toList ++ [' '] := by
        refine dropWhile_of_head? fun c hc => hfirst c ?_
        rwa [List.head?_append_of_ne_nil _ hne] at hc
      have hblank : Text.isBlank ' ' = true := by decide
      rw [Text.trim]
      show Text.trimEnd (Text.trimStart (text.toList ++ [' '])) = text.toList
      rw [hstart, Text.trimEnd, List.reverse_append]
      show ((' ' :: text.toList.reverse).dropWhile Text.isBlank).reverse = text.toList
      rw [List.dropWhile_cons_of_pos hblank]
      exact hend
  rw [fragment, htrim, if_neg hne, String.ofList_toList]

theorem compoundFrom_gap (hgap : Gap gap) (css : List Char) :
    compoundFrom css gap = fragment (css ++ gap.flatMap Piece.source) := by
  rcases hgap with rfl | rfl
  · rw [List.flatMap_nil, List.append_nil, compoundFrom]
  · rfl

/-- The pieces of a compound are read as the compound. -/
theorem compound_pieces (h : Compound.Printable parts) (hgap : Gap gap) :
    compound (parts.pieces ++ gap) = parts := by
  obtain ⟨heach, hapart⟩ := h
  unfold compound
  induction parts with
  | nil =>
    rcases hgap with rfl | rfl
    · rfl
    · decide
  | cons p parts ih =>
    have hrest := ih (fun q hq => heach q (List.mem_cons_of_mem p hq)) hapart.tail
    have hpieces : Compound.pieces (p :: parts) ++ gap =
        p.pieces ++ (Compound.pieces parts ++ gap) := by simp [Compound.pieces]
    rw [hpieces]
    cases heach p List.mem_cons_self with
    | @pseudo node hne hname =>
      simp only [Part.pieces, List.cons_append, List.nil_append, compoundFrom, Piece.pseudo?,
        argumentValue_quoted, String.ofList_toList, hrest]
      rfl
    | @css text hne hfirst hlast htext =>
      have hcss : ∀ p ∈ pieces text.toList, p.pseudo? = none := by
        intro p hp
        obtain ⟨other, rfl⟩ := pieces_css htext p hp
        rfl
      rw [Part.pieces, compoundFrom_append hcss, List.nil_append, sources_pieces]
      cases parts with
      | nil => exact (compoundFrom_gap hgap _).trans (fragment_gap hne hfirst hlast hgap)
      | cons q parts =>
        cases q with
        | css other => exact absurd ⟨rfl, rfl⟩ hapart.rel
        | pseudo node =>
          have hcons : Compound.pieces (.pseudo node :: parts) ++ gap = .pseudo node.name.toList
              ('(' :: (quoted node.value.toList ++ [')'])) true :: (Compound.pieces parts ++ gap) := by
            simp [Compound.pieces, Part.pieces]
          have hfragment := fragment_gap hne hfirst hlast (.inl rfl)
          rw [List.flatMap_nil, List.append_nil] at hfragment
          rw [hcons] at hrest ⊢
          rw [compoundFrom_pseudo, hrest, hfragment]
          rfl

/-- The pieces of a compound are no separators and no pseudo-classes. -/
theorem mem_pieces (h : Compound.Printable parts) (hgap : Gap gap) {q : Piece}
    (hq : q ∈ parts.pieces ++ gap) : q.Inner ∧ q.isPseudoClass = false := by
  have hcss : ∀ text, (Piece.css text).Inner ∧ (Piece.css text).isPseudoClass = false :=
    fun _ => ⟨⟨rfl, rfl⟩, rfl⟩
  rcases List.mem_append.mp hq with hq | hq
  · obtain ⟨p, hp, hq⟩ := List.mem_flatMap.mp hq
    cases h.each p hp with
    | pseudo hne hname =>
      obtain rfl := List.mem_singleton.mp hq
      exact ⟨⟨rfl, rfl⟩, rfl⟩
    | css _ _ _ htext =>
      obtain ⟨text, rfl⟩ := pieces_css htext q hq
      exact hcss text
  · rcases hgap with rfl | rfl
    · exact absurd hq List.not_mem_nil
    · obtain rfl := List.mem_singleton.mp hq
      exact hcss [' ']

/-- A compound with something in it does not start with a blank. -/
theorem trimStart_compound (h : Compound.Printable parts) (hne : parts ≠ []) (rest : List Char) :
    Text.trimStart (parts.print ++ rest) = parts.print ++ rest := by
  obtain ⟨p, others, rfl⟩ := List.exists_cons_of_ne_nil hne
  have hprint : Compound.print (p :: others) ++ rest = p.print ++ (Compound.print others ++ rest) := by
    simp [Compound.print]
  rw [hprint]
  refine dropWhile_of_head? fun c hc => ?_
  cases h.each p List.mem_cons_self with
  | pseudo _ _ =>
    obtain rfl : ':' = c := Option.some.inj hc
    decide
  | css hnil hfirst _ _ =>
    rw [Part.print, List.head?_append_of_ne_nil _ hnil] at hc
    exact hfirst c hc

/-! ### One link after the other -/

/-- The pieces are read as the selector, and no pseudo-class is among them. -/
structure Spells (ps : List Piece) (ast : SelectorList) : Prop where
  complexes : complexes ps = ast
  classes : ∀ p ∈ ps, p.isPseudoClass = false

theorem spells_last (h : Compound.Printable parts) (hgap : Gap gap) :
    Spells (parts.pieces ++ gap) [[.compound parts]] where
  complexes := by rw [complexes_inner fun p hp => (mem_pieces h hgap hp).1, compound_pieces h hgap]
  classes p hp := (mem_pieces h hgap hp).2

theorem Spells.comma (hps : Spells ps ast) (h : Compound.Printable parts) (hgap : Gap gap)
    (blanks : List Char) :
    Spells (parts.pieces ++ gap ++ .comma blanks :: ps) ([.compound parts] :: ast) where
  complexes := by
    rw [complexes_comma fun p hp => (mem_pieces h hgap hp).1, compound_pieces h hgap, hps.complexes]
  classes p hp := by
    rcases List.mem_append.mp hp with hp | hp
    · exact (mem_pieces h hgap hp).2
    · rcases List.mem_cons.mp hp with rfl | hp
      · rfl
      · exact hps.classes p hp

theorem Spells.combinator (hps : Spells ps (links :: ast)) (h : Compound.Printable parts)
    (hgap : Gap gap) (c : Combinator) (blanks : List Char) :
    Spells (parts.pieces ++ gap ++ .combinator c blanks :: ps)
      ((.compound parts :: .combinator c :: links) :: ast) where
  complexes := by
    rw [complexes_combinator (fun p hp => (mem_pieces h hgap hp).1) c blanks hps.complexes,
      compound_pieces h hgap]
  classes p hp := by
    rcases List.mem_append.mp hp with hp | hp
    · exact (mem_pieces h hgap hp).2
    · rcases List.mem_cons.mp hp with rfl | hp
      · rfl
      · exact hps.classes p hp

/-- The text is read as the selector, as it stands and without the blanks it starts with. -/
structure ReadsBack (cs : List Char) (ast : SelectorList) : Prop where
  whole : Spells (pieces cs) ast
  trimmed : Spells (pieces (Text.trimStart cs)) ast

/-- Blanks at the start of a text matter only when its first compound is empty. -/
theorem readsBack_of (h : Compound.Printable parts) {rest : List Char}
    (hwhole : Spells (pieces (parts.print ++ rest)) ast)
    (hempty : parts = [] → Spells (pieces (Text.trimStart rest)) ast) :
    ReadsBack (parts.print ++ rest) ast := by
  refine ⟨hwhole, ?_⟩
  by_cases hne : parts = []
  · have hnil : parts.print ++ rest = rest := by rw [hne]; rfl
    rw [hnil]
    exact hempty hne
  · rwa [trimStart_compound h hne]

theorem readsBack_last (h : Compound.Printable parts) :
    ReadsBack (parts.print ++ []) [[.compound parts]] := by
  refine readsBack_of h ?_ ?_
  · rw [pieces_compound h, pieces_nil]
    exact spells_last h (.inl rfl)
  · rintro rfl
    have hspells : Spells (Compound.pieces [] ++ []) [[.compound []]] := spells_last h (.inl rfl)
    show Spells (pieces []) [[.compound []]]
    rw [pieces_nil]
    exact hspells

theorem ReadsBack.comma (hcs : ReadsBack cs ast) (h : Compound.Printable parts) :
    ReadsBack (parts.print ++ ',' :: ' ' :: cs) ([.compound parts] :: ast) := by
  obtain ⟨blanks, hblanks⟩ := pieces_comma cs
  have hspells := hcs.trimmed.comma h (.inl rfl) blanks
  rw [List.append_nil, ← hblanks] at hspells
  refine readsBack_of h ?_ ?_
  · rwa [pieces_compound h]
  · rintro rfl
    exact hspells

theorem ReadsBack.combinator (hcs : ReadsBack cs (links :: ast)) (h : Compound.Printable parts)
    (c : Combinator) :
    ReadsBack (parts.print ++ ' ' :: (c.text.toList ++ ' ' :: cs))
      ((.compound parts :: .combinator c :: links) :: ast) := by
  obtain ⟨blanks, hblanks⟩ := pieces_combinator c cs
  refine readsBack_of h ?_ ?_
  · have hspells := hcs.trimmed.combinator h (.inr rfl) c blanks
    rw [← hblanks, List.append_assoc] at hspells
    rw [pieces_compound h, pieces_plain (by decide)]
    exact hspells
  · -- The blank before the combinator went with the separator before it.
    rintro rfl
    have hspells := hcs.trimmed.combinator h (.inl rfl) c blanks
    rw [List.append_nil, ← hblanks] at hspells
    have htrim : Text.trimStart (' ' :: (c.text.toList ++ ' ' :: cs)) =
        c.text.toList ++ ' ' :: cs := by
      cases c with
      | descendant => rfl
      | child => rfl
    rw [htrim]
    exact hspells

/-- Links are read back when the last compound is, with what stands behind it. -/
theorem readsBack_links {rest : List Char}
    (hlast : ∀ parts, Compound.Printable parts →
      ReadsBack (parts.print ++ rest) ([.compound parts] :: ast))
    (h : Complex.Printable links) : ReadsBack (links.print ++ rest) (links :: ast) := by
  induction h with
  | @last parts hparts =>
    have hprint : Complex.print [.compound parts] = parts.print := by simp [Complex.print, Link.print]
    rw [hprint]
    exact hlast parts hparts
  | @link parts links c hparts _ ih =>
    have hprint : Complex.print (.compound parts :: .combinator c :: links) ++ rest =
        parts.print ++ ' ' :: (c.text.toList ++ ' ' :: (links.print ++ rest)) := by
      simp [Complex.print, Link.print]
    rw [hprint]
    exact ih.combinator hparts c

/-- Complex selectors are read back from their texts with commas between them. -/
theorem readsBack_complexes (hne : ast ≠ []) (h : ∀ links ∈ ast, Complex.Printable links) :
    ReadsBack ([',', ' '].intercalate (ast.map Complex.print)) ast := by
  induction ast with
  | nil => exact absurd rfl hne
  | cons links others ih =>
    have hlinks := h links List.mem_cons_self
    cases others with
    | nil =>
      rw [List.map_cons, List.map_nil, List.intercalate_singleton, ← List.append_nil links.print]
      exact readsBack_links (fun parts hparts => readsBack_last hparts) hlinks
    | cons next others =>
      have hothers := ih (by simp) fun links hlinks => h links (List.mem_cons_of_mem _ hlinks)
      rw [List.map_cons, List.map_cons, List.intercalate_cons_cons, List.append_assoc]
      exact readsBack_links (fun parts hparts => hothers.comma hparts) hlinks

/-- A printable selector is read back from its text: its structured form is the selector itself, it has
no pseudo-classes, and it asks the accessibility tree when one of its pseudo nodes does. -/
theorem parse_print (h : Printable ast) :
    parse (print ast) =
      { isPureCss := false
        ast := some ast
        hasPseudoClasses := false
        hasAria := (nodes ast).any fun node => node.name == PseudoNode.ariaName } := by
  have hread := (readsBack_complexes h.nonempty h.complexes).whole
  have htext : (print ast).toList = [',', ' '].intercalate (ast.map Complex.print) :=
    String.toList_ofList
  rw [← htext] at hread
  have hclasses : (pieces (print ast).toList).any Piece.isPseudoClass = false :=
    List.any_eq_false.mpr fun p hp => by simp [hread.classes p hp]
  rw [parse_eq hread.complexes h.extended, hclasses]

/-- A selector with an empty compound behind a combinator, and with separators and brackets in
strings. -/
def tangled : SelectorList :=
  [[.compound [.css "ul[id=\"],\"]", .pseudo ⟨"text", "\\\") >>> "⟩], .combinator .child,
      .compound []],
    [.compound [.pseudo ⟨"aria", "::-p-x(', "⟩]]]

theorem printable_tangled : Printable tangled where
  nonempty := by decide
  complexes := by
    have hlist : CssText
        ('u' :: 'l' :: '[' :: (['i', 'd'] ++ '=' :: (quoted [']', ','] ++ ']' :: []))) :=
      .plain (by decide) (.plain (by decide) (.test [']', ','] (by simp [Piece.isIdentChar]) .nil))
    have hcss : Part.Printable (.css "ul[id=\"],\"]") :=
      .css (by simp) (by simp [Text.isBlank]) (by simp [Text.isBlank]) hlist
    have htext : Part.Printable (.pseudo ⟨"text", "\\\") >>> "⟩) :=
      .pseudo (by simp) (by simp [Piece.isNameChar])
    have haria : Part.Printable (.pseudo ⟨"aria", "::-p-x(', "⟩) :=
      .pseudo (by simp) (by simp [Piece.isNameChar])
    intro links hlinks
    simp only [tangled, List.mem_cons, List.not_mem_nil, or_false] at hlinks
    rcases hlinks with rfl | rfl
    · exact .link _ ⟨by simp [hcss, htext], by simp [Part.isCss]⟩ (.last ⟨by simp, by simp⟩)
    · exact .last ⟨by simp [haria], by simp⟩
  extended := .inl (by decide)

/-- The tangled selector is read back. -/
theorem parse_print_tangled : Printable tangled ∧
    parse (print tangled) =
      { isPureCss := false, ast := some tangled, hasPseudoClasses := false, hasAria := true } :=
  ⟨printable_tangled, parse_print printable_tangled⟩

end Wayfind.Selector
