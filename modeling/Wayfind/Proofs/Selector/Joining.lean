/-
Selectors that are put together.

With a comma between two texts the list that is read is the one list and then the other; with a
combinator, the last complex selector of the one goes on as the first of the other
(`parse_append`).  It takes only that the first text is closed.  The second may be anything, and
the first may end anywhere, in a word or at a separator.

The pieces of the first text stay as they are (`pieces_closed`), and the separator parts them from
those of the second (`pieces_append_comma`, `pieces_append_combinator`).  A blank may change sides
there; but blanks at either end of a segment, and behind a separator, are not read (`Alike`).
-/
import Wayfind.Proofs.Selector.Closed
import Wayfind.Proofs.Selector.Reading
import Wayfind.Proofs.Text.Blanks

namespace Wayfind.Selector

variable {b : Char}

/-! ### Blanks at the ends -/

theorem fragment_cons_blank (hb : Text.isBlank b = true) (css : List Char) :
    fragment (b :: css) = fragment css := by
  unfold fragment
  rw [Text.trim_cons_blank hb]

theorem fragment_concat_blank (hb : Text.isBlank b = true) (css : List Char) :
    fragment (css ++ [b]) = fragment css := by
  unfold fragment
  rw [Text.trim_concat_blank hb]

theorem compoundFrom_cons_blank (hb : Text.isBlank b = true) (css : List Char) (ps : List Piece) :
    compoundFrom (b :: css) ps = compoundFrom css ps := by
  induction ps generalizing css with
  | nil => exact fragment_cons_blank hb css
  | cons p ps ih =>
    unfold compoundFrom
    split
    · rw [fragment_cons_blank hb]
    · exact ih _

theorem compoundFrom_concat_blank (hb : Text.isBlank b = true) (css : List Char) (ps : List Piece) :
    compoundFrom css (ps ++ [.css [b]]) = compoundFrom css ps := by
  induction ps generalizing css with
  | nil => exact fragment_concat_blank hb css
  | cons p ps ih =>
    rw [List.cons_append]
    unfold compoundFrom
    split
    · rw [ih]
    · exact ih _

theorem complex_cons_blank (hb : Text.isBlank b = true) (ps : List Piece) :
    complex (.css [b] :: ps) = complex ps := by
  have hlast : ∀ ps, (∀ p ∈ ps, p.combinator? = none) → complex (.css [b] :: ps) = complex ps := by
    intro ps hps
    rw [complex_of_none hps, complex_of_none (List.forall_mem_cons.mpr ⟨rfl, hps⟩)]
    exact congrArg (fun parts => [Link.compound parts]) (compoundFrom_cons_blank hb [] ps)
  rcases Text.segments_cases Piece.combinator? ps with hps | ⟨first, p, c, rest, rfl, hfirst, hp⟩
  · exact hlast ps hps
  · obtain ⟨blanks, rfl⟩ := Piece.eq_combinator hp
    rw [← List.cons_append, complex_append_combinator, hlast first hfirst, complex_append_combinator]

theorem complex_concat_blank (hb : Text.isBlank b = true) (ps : List Piece) :
    complex (ps ++ [.css [b]]) = complex ps := by
  induction ps using Text.segments_induction Piece.combinator? with
  | last ps hps =>
    have hall : ∀ p ∈ ps ++ [.css [b]], p.combinator? = none := by
      rw [List.forall_mem_append]
      exact ⟨hps, by simp [Piece.combinator?]⟩
    rw [complex_of_none hps, complex_of_none hall]
    exact congrArg (fun parts => [Link.compound parts]) (compoundFrom_concat_blank hb [] ps)
  | more first p c rest hfirst hp ih =>
    obtain ⟨blanks, rfl⟩ := Piece.eq_combinator hp
    rw [List.append_assoc, List.cons_append, complex_append_combinator, ih, complex_append_combinator]

theorem complexes_cons_blank (hb : Text.isBlank b = true) (ps : List Piece) :
    complexes (.css [b] :: ps) = complexes ps := by
  have hlast : ∀ ps, (∀ p ∈ ps, p.comma? = none) → complexes (.css [b] :: ps) = complexes ps := by
    intro ps hps
    rw [complexes_of_none hps, complexes_of_none (List.forall_mem_cons.mpr ⟨rfl, hps⟩),
      complex_cons_blank hb]
  rcases Text.segments_cases Piece.comma? ps with hps | ⟨first, p, _, rest, rfl, hfirst, hp⟩
  · exact hlast ps hps
  · obtain ⟨blanks, rfl⟩ := Piece.eq_comma hp
    rw [← List.cons_append, complexes_append_comma, hlast first hfirst, complexes_append_comma]

theorem complexes_concat_blank (hb : Text.isBlank b = true) (ps : List Piece) :
    complexes (ps ++ [.css [b]]) = complexes ps := by
  induction ps using Text.segments_induction Piece.comma? with
  | last ps hps =>
    have hall : ∀ p ∈ ps ++ [.css [b]], p.comma? = none := by
      rw [List.forall_mem_append]
      exact ⟨hps, by simp [Piece.comma?]⟩
    rw [complexes_of_none hps, complexes_of_none hall, complex_concat_blank hb]
  | more first p _ rest hfirst hp ih =>
    obtain ⟨blanks, rfl⟩ := Piece.eq_comma hp
    rw [List.append_assoc, List.cons_append, complexes_append_comma, ih, complexes_append_comma]

/-! ### The pieces around a separator -/

/-- What is looked for among the pieces: neither CSS nor a comma has it, and the blanks behind a
separator do not matter. -/
structure Flag (f : Piece → Bool) : Prop where
  css : ∀ text, f (.css text) = false
  comma : ∀ blanks, f (.comma blanks) = false
  reblanked : ∀ {p p'}, Reblanked p p' → f p = f p'

theorem flag_isExtended : Flag Piece.isExtended where
  css _ := rfl
  comma _ := rfl
  reblanked h := by cases h <;> rfl

theorem flag_isPseudoClass : Flag Piece.isPseudoClass where
  css _ := rfl
  comma _ := rfl
  reblanked h := by cases h <;> rfl

theorem flag_aria : Flag fun p => p.pseudo?.any fun node => node.name == PseudoNode.ariaName where
  css _ := rfl
  comma _ := rfl
  reblanked h := by cases h <;> rfl

/-- The same is read off both lists. -/
structure Alike (ps qs : List Piece) : Prop where
  complexes : complexes ps = complexes qs
  any : ∀ {f}, Flag f → ps.any f = qs.any f

theorem Alike.refl (ps : List Piece) : Alike ps ps := ⟨rfl, fun _ => rfl⟩

theorem alike_cons_blank (hb : Text.isBlank b = true) (ps : List Piece) : Alike (.css [b] :: ps) ps :=
  ⟨complexes_cons_blank hb ps, fun hf => by rw [List.any_cons, hf.css, Bool.false_or]⟩

theorem alike_concat_blank (hb : Text.isBlank b = true) (ps : List Piece) :
    Alike (ps ++ [.css [b]]) ps :=
  ⟨complexes_concat_blank hb ps, fun hf => by
    rw [List.any_append, List.any_cons, hf.css, List.any_nil, Bool.or_false, Bool.or_false]⟩

/-- The blanks behind a separator are not read. -/
theorem alike_reblanked {p p' : Piece} (h : Reblanked p p') (init : List Piece) :
    Alike (init ++ [p']) (init ++ [p]) where
  complexes := by
    cases h with
    | comma => rw [complexes_append_comma, complexes_append_comma]
    | combinator => rw [complexes_append_combinator, complexes_append_combinator]
  any hf := by simp only [List.any_append, List.any_cons, hf.reblanked h]

theorem pieces_blank (hb : Text.isBlank b = true) (cs : List Char) :
    pieces (b :: cs) = .css [b] :: pieces cs := by
  have hnone : (openers ++ ['>', ':', ',']).any Text.isBlank = false := by decide
  have hplain : b ∉ openers ++ ['>', ':', ','] := fun hmem => List.any_eq_false.mp hnone b hmem hb
  rw [List.mem_append, not_or] at hplain
  rw [pieces_cons, next_other hplain.left hplain.right]

/-- The blanks a text starts with are not read. -/
theorem alike_pieces_trimStart (cs : List Char) : Alike (pieces (Text.trimStart cs)) (pieces cs) := by
  induction cs with
  | nil => exact Alike.refl _
  | cons c cs ih =>
    rw [Text.trimStart]
    by_cases hc : Text.isBlank c = true
    · rw [List.dropWhile_cons_of_pos hc, pieces_blank hc]
      have hblank := alike_cons_blank hc (pieces cs)
      exact ⟨ih.complexes.trans hblank.complexes.symm, fun hf => (ih.any hf).trans (hblank.any hf).symm⟩
    · rw [List.dropWhile_cons_of_neg hc]
      exact Alike.refl _

/-- A comma behind a closed text parts the pieces of the one text from those of the other. -/
theorem pieces_append_comma {cs : List Char} (hcs : Closed cs) (tail : List Char) :
    ∃ blanks, pieces (cs ++ ',' :: tail) =
      pieces cs ++ .comma blanks :: pieces (Text.trimStart tail) := by
  have hcomma : pieces (',' :: tail) =
      .comma (Piece.cutBlanks tail).1 :: pieces (Text.trimStart tail) := pieces_cons _ _
  refine ⟨(Piece.cutBlanks tail).1, ?_⟩
  rcases pieces_closed (.inl rfl) hcs tail with hpieces | ⟨hblank, _⟩
  · rw [hpieces, hcomma]
  · exact absurd hblank (by decide)

/-- So does a combinator between blanks, but that the first blank belongs to what stands before. -/
theorem pieces_append_combinator {cs : List Char} (hcs : Closed cs) (c : Combinator)
    (tail : List Char) :
    ∃ before blanks, Alike before (pieces cs) ∧
      pieces (cs ++ ' ' :: (c.text.toList ++ ' ' :: tail)) =
        before ++ .combinator c blanks :: pieces (Text.trimStart tail) := by
  obtain ⟨blanks, hcombinator⟩ := pieces_combinator c tail
  rcases pieces_closed (.inr rfl) hcs (c.text.toList ++ ' ' :: tail) with
    hpieces | ⟨_, init, p, p', hreblanked, hinit, hpieces⟩
  · refine ⟨pieces cs ++ [.css [' ']], blanks, alike_concat_blank (by decide) _, ?_⟩
    rw [hpieces, pieces_blank (by decide), hcombinator, List.append_assoc]
    rfl
  · have htrim : Text.trimStart (c.text.toList ++ ' ' :: tail) = c.text.toList ++ ' ' :: tail := by
      cases c <;> rfl
    refine ⟨init ++ [p'], blanks, hinit ▸ alike_reblanked hreblanked init, ?_⟩
    rw [hpieces, htrim, hcombinator, List.append_assoc]
    rfl

/-! ### What is read -/

/-- The list of complex selectors of a text, whether or not it is plain CSS. -/
def listOf (text : String) : SelectorList := complexes (pieces text.toList)

theorem any_append_cons {f : Piece → Bool} (hf : Flag f) {before : List Piece} {cs : List Char}
    (hbefore : Alike before (pieces cs)) (p : Piece) (tail : List Char) :
    (before ++ p :: pieces (Text.trimStart tail)).any f =
      ((pieces cs).any f || (f p || (pieces tail).any f)) := by
  rw [List.any_append, List.any_cons, hbefore.any hf, (alike_pieces_trimStart tail).any hf]

/-- Reading goes from text to text: behind a closed text, a comma puts the lists of both texts one
behind the other, and a combinator links them; what else is known of a selector is known of the
parts. -/
theorem parse_append {s : String} (hs : Closed s.toList) (t : String) :
    (∀ text, (parse text).ast = if (parse text).isPureCss then none else some (listOf text)) ∧
    (listOf (s ++ "," ++ t) = listOf s ++ listOf t ∧
      (parse (s ++ "," ++ t)).isPureCss = ((parse s).isPureCss && (parse t).isPureCss) ∧
      (parse (s ++ "," ++ t)).hasPseudoClasses =
        ((parse s).hasPseudoClasses || (parse t).hasPseudoClasses) ∧
      (parse (s ++ "," ++ t)).hasAria = ((parse s).hasAria || (parse t).hasAria)) ∧
    ∀ c : Combinator,
      listOf (s ++ " " ++ c.text ++ " " ++ t) = linked c (listOf s) (listOf t) ∧
        (parse (s ++ " " ++ c.text ++ " " ++ t)).isPureCss = false ∧
        (parse (s ++ " " ++ c.text ++ " " ++ t)).hasPseudoClasses =
          ((parse s).hasPseudoClasses || (parse t).hasPseudoClasses) ∧
        (parse (s ++ " " ++ c.text ++ " " ++ t)).hasAria = ((parse s).hasAria || (parse t).hasAria) := by
  refine ⟨ast_parse, ?_, fun c => ?_⟩
  · obtain ⟨blanks, hpieces⟩ := pieces_append_comma hs t.toList
    have htext : (s ++ "," ++ t).toList = s.toList ++ ',' :: t.toList := by simp
    have hany : ∀ {f}, Flag f → (pieces (s ++ "," ++ t).toList).any f =
        ((pieces s.toList).any f || (pieces t.toList).any f) := by
      intro f hf
      rw [htext, hpieces, any_append_cons hf (Alike.refl _), hf.comma, Bool.false_or]
    refine ⟨?_, ?_, hany flag_isPseudoClass, hany flag_aria⟩
    · rw [listOf, htext, hpieces, complexes_append_comma, (alike_pieces_trimStart _).complexes]
      rfl
    · exact (congrArg not (hany flag_isExtended)).trans (Bool.not_or ..)
  · obtain ⟨before, blanks, hbefore, hpieces⟩ := pieces_append_combinator hs c t.toList
    have htext : (s ++ " " ++ c.text ++ " " ++ t).toList =
        s.toList ++ ' ' :: (c.text.toList ++ ' ' :: t.toList) := by simp
    have hany : ∀ {f}, Flag f → (pieces (s ++ " " ++ c.text ++ " " ++ t).toList).any f =
        ((pieces s.toList).any f || (f (.combinator c blanks) || (pieces t.toList).any f)) := by
      intro f hf
      rw [htext, hpieces, any_append_cons hf hbefore]
    refine ⟨?_, ?_, hany flag_isPseudoClass, hany flag_aria⟩
    · rw [listOf, htext, hpieces, complexes_append_combinator, hbefore.complexes,
        (alike_pieces_trimStart _).complexes]
      rfl
    · refine (congrArg not (hany flag_isExtended)).trans ?_
      have hextended : Piece.isExtended (.combinator c blanks) = true := rfl
      rw [hextended, Bool.true_or, Bool.or_true]
      rfl

/-- The first text has a comma in a string, in a group and behind an escape, and ends in a combinator;
the second closes neither the string nor the group it opens. -/
theorem parse_append_unclosed :
    Closed "a[x=\",\"]\\,:is(b,c) >>>".toList ∧
      listOf ("a[x=\",\"]\\,:is(b,c) >>>" ++ "," ++ "d(\"e, ") =
        listOf "a[x=\",\"]\\,:is(b,c) >>>" ++ listOf "d(\"e, " := by
  have hclosed : Closed "a[x=\",\"]\\,:is(b,c) >>>".toList := by
    have hend : Closed " >>>".toList :=
      .char (by decide) (.char (by decide) (.char (by decide) (.char (by decide) .nil)))
    have his : Closed ":is(b,c) >>>".toList :=
      .char (by decide) <| .char (by decide) <| .char (by decide) <|
        .group .round (.char (by decide) (by decide) (by decide) (by decide) <|
          .char (by decide) (by decide) (by decide) (by decide) <|
          .char (by decide) (by decide) (by decide) (by decide) .close) hend
    exact .char (by decide) <| .group .square (.char (by decide) (by decide) (by decide) (by decide) <|
      .char (by decide) (by decide) (by decide) (by decide) <|
      .string (by decide) (.char (by decide) (by decide) .close) .close) <| .escape ',' his
  exact ⟨hclosed, (parse_append hclosed "d(\"e, ").2.1.1⟩

end Wayfind.Selector
