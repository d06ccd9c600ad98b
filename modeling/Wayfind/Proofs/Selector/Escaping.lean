/-
Escapes at the ends of texts.

A backslash takes the character behind it along, so backslashes pair off from the left with what they
stand before, and only one at the end of a text can be left alone (`dangles`).  The reader keeps the
pairs together: in a text where none is left alone, none is in any piece (`whole_pieces`), and so none
is in any run of CSS.

Trimming knows nothing of pairs.  A run that ends in an escaped blank loses the blank, and its fragment
ends in the backslash (`dangles_trim_iff`); an argument that ends in one loses it too, and the value
comes out a character short (`value_escaped`).  Nothing else is ever lost.
-/
import Wayfind.Proofs.Selector.Cutting
import Wayfind.Proofs.Selector.Fragments

namespace Wayfind.Selector

variable {cs rest : List Char}

/-! ### Pairing from the left -/

/-- The text ends in a backslash that has no character to take along. -/
def dangles : List Char → Bool
  | [] => false
  | '\\' :: _ :: rest => dangles rest
  | c :: rest => c == '\\' || dangles rest

theorem dangles_cons {c : Char} (hc : c ≠ '\\') (rest : List Char) : dangles (c :: rest) = dangles rest := by
  rw [dangles.eq_3 c rest fun _ _ h _ => hc h, beq_eq_false_iff_ne.mpr hc, Bool.false_or]

/-- Pairs that come out even leave the pairing behind them as it is. -/
theorem dangles_append (h : dangles cs = false) (rest : List Char) : dangles (cs ++ rest) = dangles rest := by
  fun_induction dangles cs with
  | case1 => rfl
  | case2 c cs ih => exact ih h
  | case3 c cs _ ih =>
    rw [Bool.or_eq_false_iff, beq_eq_false_iff_ne] at h
    rw [List.cons_append, dangles_cons h.1, ih h.2]

theorem dangles_of_not_mem (h : '\\' ∉ cs) : dangles cs = false := by
  induction cs with
  | nil => rfl
  | cons c cs ih =>
    rw [List.mem_cons, not_or] at h
    rw [dangles_cons (Ne.symm h.1), ih h.2]

theorem dangles_flatten {texts : List (List Char)} (h : ∀ cs ∈ texts, dangles cs = false) :
    dangles texts.flatten = false := by
  induction texts with
  | nil => rfl
  | cons cs texts ih =>
    rw [List.forall_mem_cons] at h
    rw [List.flatten_cons, dangles_append h.1, ih h.2]

/-- Only the last character can be left alone. -/
theorem dangles_iff : dangles cs = true ↔ ∃ init, cs = init ++ ['\\'] ∧ dangles init = false := by
  constructor
  · fun_induction dangles cs with
    | case1 => exact nofun
    | case2 c cs ih =>
      intro h
      obtain ⟨init, rfl, hinit⟩ := ih h
      exact ⟨'\\' :: c :: init, rfl, hinit⟩
    | case3 c cs halone ih =>
      intro h
      by_cases hc : c = '\\'
      · subst hc
        cases cs with
        | nil => exact ⟨[], rfl, rfl⟩
        | cons d cs => exact absurd rfl (halone d cs rfl)
      · rw [beq_eq_false_iff_ne.mpr hc, Bool.false_or] at h
        obtain ⟨init, rfl, hinit⟩ := ih h
        exact ⟨c :: init, rfl, by rw [dangles_cons hc, hinit]⟩
  · rintro ⟨init, rfl, hinit⟩
    rw [dangles_append hinit]
    rfl

theorem blank_not_mem (h : Text.Blank cs) : '\\' ∉ cs := fun hmem => absurd (h _ hmem) (by decide)

/-! ### Spans -/

/-- In front of pairs that come out even stands no backslash, unless it has a character to take along. -/
theorem whole_of_cons {c : Char} (h : dangles (c :: cs) = false)
    (halone : ∀ d tail, c = '\\' → cs = d :: tail → False) : c ≠ '\\' ∧ dangles cs = false := by
  rw [dangles.eq_3 c cs halone, Bool.or_eq_false_iff, beq_eq_false_iff_ne] at h
  exact h

theorem whole_cutString (quote : Char) (h : dangles cs = false) : dangles (cutString quote cs).1 = false := by
  fun_induction cutString quote cs with
  | case1 => rfl
  | case2 c cs taken left hcut ih =>
    rw [hcut] at ih
    exact ih h
  | case3 cs halone => exact dangles_cons (whole_of_cons h halone).1 []
  | case4 c cs halone hquote taken left hcut ih =>
    rw [hcut] at ih
    have hcons := whole_of_cons h halone
    exact (dangles_cons hcons.1 _).trans (ih hcons.2)

theorem whole_push {c : Char} {cut : GroupCut} (h : dangles (c :: cs) = false)
    (halone : ∀ d tail, c = '\\' → cs = d :: tail → False)
    (hcut : dangles cs = false → dangles cut.taken = false) : dangles (cut.push c).taken = false := by
  obtain ⟨hc, hcs⟩ := whole_of_cons h halone
  exact (dangles_cons hc _).trans (hcut hcs)

theorem whole_cutGroupAt (opening closing : Char) (quote : Option Char) (depth : Nat) (h : dangles cs = false) :
    dangles (cutGroupAt opening closing quote depth cs).taken = false := by
  fun_induction cutGroupAt opening closing quote depth cs with
  | case1 => rfl
  | case2 quote depth c cs ih => exact ih h
  | case3 quote depth c cs halone ih => exact whole_push h halone ih
  | case4 depth c cs halone hquote ih => exact whole_push h halone ih
  | case5 depth cs halone hquote ih => exact whole_push h halone ih
  | case6 depth cs hdepth halone => exact dangles_cons (whole_of_cons h halone).1 []
  | case7 depth cs hdepth halone hquote hne ih => exact whole_push h halone ih
  | case8 depth c cs halone hquote hopening hclosing ih => exact whole_push h halone ih

theorem whole_cutArgument (h : dangles cs = false) : dangles (Piece.cutArgument cs).taken = false := by
  unfold Piece.cutArgument
  split
  · exact whole_cutGroupAt _ _ _ _ h
  · rfl

/-! ### Pieces and runs -/

/-- A name holds no backslash. -/
theorem whole_dropWhile {p : Char → Bool} (hp : p '\\' = false) (h : dangles cs = false) :
    dangles (cs.takeWhile p) = false ∧ dangles (cs.dropWhile p) = false := by
  have hname : dangles (cs.takeWhile p) = false :=
    dangles_of_not_mem fun hmem => absurd (List.mem_takeWhile_imp hmem) (by rw [hp]; exact Bool.false_ne_true)
  rw [← List.takeWhile_append_dropWhile (p := p) (l := cs), dangles_append hname] at h
  exact ⟨hname, h⟩

theorem whole_cutPseudo (h : dangles cs = false) : dangles (Piece.cutPseudo cs).1.source = false := by
  unfold Piece.cutPseudo
  split
  · rfl
  · obtain ⟨hname, hrest⟩ := whole_dropWhile (p := Piece.isNameChar) rfl h
    have hmark : dangles Piece.pseudoMark = false := rfl
    rw [Piece.source, List.append_assoc, dangles_append hmark, dangles_append hname]
    exact whole_cutArgument hrest

theorem whole_cutPseudoClass (h : dangles cs = false) : dangles (Piece.cutPseudoClass cs).1.source = false := by
  unfold Piece.cutPseudoClass
  split
  · rfl
  · obtain ⟨hname, hrest⟩ := whole_dropWhile (p := Piece.isIdentChar) rfl h
    rw [Piece.source, dangles_cons (by decide), dangles_append hname]
    exact whole_cutArgument hrest

theorem whole_cutBlanks (cs : List Char) : dangles (Piece.cutBlanks cs).1 = false :=
  dangles_of_not_mem (blank_not_mem fun _ hc => List.mem_takeWhile_imp hc)

/-- The first piece takes the characters along that its backslashes stand before. -/
theorem whole_next {c : Char} (h : dangles (c :: rest) = false) :
    dangles (Piece.next c rest).1.source = false := by
  unfold Piece.next
  split
  case h_1 => exact whole_cutString _ h
  case h_2 => exact whole_cutString _ h
  case h_3 => exact whole_cutGroupAt _ _ _ _ h
  case h_4 => exact whole_cutGroupAt _ _ _ _ h
  case h_5 => rfl
  case h_6 => exact whole_cutBlanks _
  case h_7 => exact whole_cutBlanks _
  case h_8 => exact whole_cutPseudo h
  case h_9 => rfl
  case h_10 => exact whole_cutPseudoClass h
  case h_11 => exact whole_cutBlanks _
  case h_12 halone _ _ _ _ => exact dangles_cons (whole_of_cons h halone).1 []

theorem whole_pieces (h : dangles cs = false) : ∀ p ∈ pieces cs, dangles p.source = false := by
  fun_induction pieces cs with
  | case1 => exact fun p hp => absurd hp List.not_mem_nil
  | case2 c rest ih =>
    have hfirst := whole_next h
    rw [← Piece.next_append c rest, dangles_append hfirst] at h
    exact List.forall_mem_cons.mpr ⟨hfirst, ih h⟩

/-- A property of all elements is one of all elements of the segments. -/
theorem forall_segmentsAt {α β : Type} {separator? : α → Option β} {P : α → Prop} {as : List α}
    (h : ∀ a ∈ as, P a) : ∀ seg ∈ Text.segmentsAt separator? as, ∀ a ∈ seg, P a := by
  obtain ⟨hfirst, hothers⟩ := Text.forall_splitAt? separator? h
  refine List.forall_mem_cons.mpr ⟨hfirst, fun seg hseg => ?_⟩
  obtain ⟨s, hs, rfl⟩ := List.mem_map.mp hseg
  exact hothers s hs

/-- The runs of CSS in a text, in order. -/
def runsOf (ps : List Piece) : List (List Char) := (segments ps).flatMap runs

theorem whole_runsOf {ps : List Piece} (h : ∀ p ∈ ps, dangles p.source = false) :
    ∀ run ∈ runsOf ps, dangles run = false := by
  intro run hrun
  obtain ⟨seg, hseg, hrun⟩ := List.mem_flatMap.mp hrun
  obtain ⟨links, hlinks, hseg⟩ := List.mem_flatMap.mp hseg
  obtain ⟨css, hcss, rfl⟩ := List.mem_map.mp hrun
  have hall := forall_segmentsAt (forall_segmentsAt (forall_segmentsAt h links hlinks) seg hseg) css hcss
  rw [List.flatMap_def]
  refine dangles_flatten fun source hsource => ?_
  obtain ⟨p, hp, rfl⟩ := List.mem_map.mp hsource
  exact hall p hp

/-! ### Escaped blanks -/

/-- The text ends in an escaped blank, and perhaps more blanks. -/
def EndsEscaped (cs : List Char) : Prop :=
  ∃ init b blanks, cs = init ++ '\\' :: b :: blanks ∧ dangles init = false ∧ Text.isBlank b = true ∧
    Text.Blank blanks

/-- A backslash that is alone is no blank, and trimming leaves it. -/
theorem dangles_trim (h : dangles cs = true) : dangles (Text.trim cs) = true := by
  obtain ⟨before, after, hbefore, hafter, hcs⟩ := Text.exists_trim cs
  rw [hcs, dangles_append (dangles_of_not_mem (blank_not_mem hbefore))] at h
  cases htrim : dangles (Text.trim cs) with
  | true => rfl
  | false =>
    rw [dangles_append htrim, dangles_of_not_mem (blank_not_mem hafter)] at h
    exact h

/-- Trimming leaves a backslash alone just when it took the blank away that the backslash stood before. -/
theorem dangles_trim_iff (h : dangles cs = false) : dangles (Text.trim cs) = true ↔ EndsEscaped cs := by
  constructor
  · intro htrim
    obtain ⟨init, hend, hinit⟩ := dangles_iff.mp htrim
    obtain ⟨before, after, hbefore, hafter, hcs⟩ := Text.exists_trim cs
    have hfront : dangles before = false := dangles_of_not_mem (blank_not_mem hbefore)
    cases after with
    | nil => rw [hcs, List.append_nil, dangles_append hfront, htrim] at h; exact absurd h nofun
    | cons b blanks =>
      rw [Text.Blank, List.forall_mem_cons] at hafter
      refine ⟨before ++ init, b, blanks, ?_, by rw [dangles_append hfront, hinit], hafter.1, hafter.2⟩
      rw [hcs, hend]
      simp
  · rintro ⟨init, b, blanks, rfl, hinit, hb, hblanks⟩
    have hblank : Text.Blank (b :: blanks) := List.forall_mem_cons.mpr ⟨hb, hblanks⟩
    have hsplit : init ++ '\\' :: b :: blanks = init ++ ['\\'] ++ b :: blanks := by simp
    rw [hsplit, Text.trim_append_of_blank.2 hblank]
    exact dangles_trim (dangles_iff.mpr ⟨init, rfl, hinit⟩)

/-! ### Escaped arguments -/

/-- The text with a backslash before every character. -/
def escaped (cs : List Char) : List Char := cs.flatMap fun c => ['\\', c]

theorem escaped_cons (c : Char) (cs : List Char) : escaped (c :: cs) = '\\' :: c :: escaped cs := rfl

theorem escaped_append (cs rest : List Char) : escaped (cs ++ rest) = escaped cs ++ escaped rest :=
  List.flatMap_append

theorem unescape_escaped (cs : List Char) : unescape (escaped cs) = cs := by
  induction cs with
  | nil => rfl
  | cons c cs ih => rw [escaped_cons, unescape, ih]

/-- The backslash of an escape that was cut in two stands for nothing. -/
theorem unescape_escaped_append (cs : List Char) : unescape (escaped cs ++ ['\\']) = cs := by
  induction cs with
  | nil => rfl
  | cons c cs ih => rw [escaped_cons, List.cons_append, List.cons_append, unescape, ih]

/-- No character of the argument is read as one that ends it. -/
theorem cutGroupAt_escaped (opening closing : Char) (cs rest : List Char) {depth : Nat} :
    cutGroupAt opening closing none depth (escaped cs ++ rest) =
      (cutGroupAt opening closing none depth rest).prepend (escaped cs) := by
  induction cs with
  | nil => rfl
  | cons c cs ih =>
    rw [escaped_cons, List.cons_append, List.cons_append, cutGroupAt, ih]
    rfl

theorem cutGroup_escaped (cs rest : List Char) :
    cutGroup '(' ')' ('(' :: (escaped cs ++ ')' :: rest)) = ⟨'(' :: (escaped cs ++ [')']), rest, true⟩ := by
  rw [cutGroup_cons _ _ (by decide) (by decide), cutGroupAt_escaped,
    cutGroupAt_closing _ _ (by decide) (by decide) (by decide)]
  rfl

theorem exists_escaped (init rest : List Char) : ∃ tail, escaped init ++ '\\' :: rest = '\\' :: tail := by
  cases init with
  | nil => exact ⟨rest, rfl⟩
  | cons c init => exact ⟨c :: (escaped init ++ '\\' :: rest), rfl⟩

/-- A text that starts with a backslash is in no quotes. -/
theorem unquote_escaped (init rest : List Char) :
    unquote (escaped init ++ '\\' :: rest) = unescape (escaped init ++ '\\' :: rest) := by
  obtain ⟨tail, htail⟩ := exists_escaped init rest
  rw [htail]
  simp [unquote, stripQuotes, isQuote]

theorem trimmed_escaped (init : List Char) {rest : List Char}
    (h : ∀ c ∈ ('\\' :: rest).getLast?, Text.isBlank c = false) :
    Text.Trimmed (escaped init ++ '\\' :: rest) where
  nonempty := by simp
  first := by
    obtain ⟨tail, htail⟩ := exists_escaped init rest
    rw [htail]
    intro c hc
    rw [← Option.some.inj hc]
    rfl
  last := by
    rw [List.getLast?_append_of_ne_nil _ (List.cons_ne_nil _ _)]
    exact h

/-- What an escaped text is read as: itself, but without a blank at its end. -/
def kept (cs : List Char) : List Char := if cs.getLast?.any Text.isBlank then cs.dropLast else cs

theorem kept_concat (init : List Char) (c : Char) :
    kept (init ++ [c]) = if Text.isBlank c then init else init ++ [c] := by
  rw [kept, List.getLast?_concat, List.dropLast_concat]
  rfl

theorem argumentValue_escaped (value : List Char) :
    argumentValue ('(' :: (escaped value ++ [')'])) true = kept value := by
  simp only [argumentValue, List.drop_succ_cons, List.drop_zero, if_true, List.dropLast_concat]
  rcases List.eq_nil_or_concat value with rfl | ⟨init, c, rfl⟩
  · rfl
  rw [List.concat_eq_append, kept_concat]
  have hescaped : escaped (init ++ [c]) = escaped init ++ '\\' :: [c] := escaped_append init [c]
  by_cases hc : Text.isBlank c = true
  · have hblank : Text.Blank [c] := List.forall_mem_singleton.mpr hc
    have hsplit : escaped init ++ '\\' :: [c] = escaped init ++ '\\' :: [] ++ [c] := by simp
    rw [if_pos hc, hescaped, hsplit, Text.trim_append_of_blank.2 hblank,
      (trimmed_escaped init fun _ hd => Option.some.inj hd ▸ rfl).trim, unquote_escaped,
      unescape_escaped_append]
  · have htrimmed : Text.Trimmed (escaped init ++ '\\' :: [c]) := by
      refine trimmed_escaped init fun d hd => ?_
      rw [← Option.some.inj hd]
      exact Bool.eq_false_iff.mpr hc
    rw [if_neg hc, hescaped, htrimmed.trim, unquote_escaped, ← hescaped, unescape_escaped]

/-! ### Any text -/

/-- In a text in which every backslash has a character to take along, every fragment of the list read off
it is a run of CSS without the blanks around it, and ends in a backslash that is alone just when its run
ends in an escaped blank.  And an argument with a backslash before every character is read as what it
was written for, but for a blank at its end. -/
theorem kept_parse {text : String} (htext : dangles text.toList = false) {name : List Char}
    (hne : name ≠ []) (hname : ∀ c ∈ name, Piece.isNameChar c = true) (value : List Char) :
    (∀ ast ∈ (parse text).ast, (compounds ast).flatMap Compound.fragments =
        ((runsOf (pieces text.toList)).map Text.trim).filter (· ≠ []) ∧
      ∀ run ∈ runsOf (pieces text.toList), dangles (Text.trim run) = true ↔ EndsEscaped run) ∧
    (parse (String.ofList (Piece.pseudoMark ++ (name ++ '(' :: (escaped value ++ [')']))))).ast =
      some [[.compound [.pseudo ⟨String.ofList name, String.ofList (kept value)⟩]]] := by
  refine ⟨fun ast hast => ⟨?_, fun run hrun => ?_⟩, ?_⟩
  · rw [compounds_parse hast, List.flatMap_map, runsOf]
    simp only [fragments_compound, List.map_flatMap, List.filter_flatMap]
  · exact dangles_trim_iff (whole_runsOf (whole_pieces htext) run hrun)
  · have hpieces : pieces (Piece.pseudoMark ++ (name ++ '(' :: (escaped value ++ [')']))) =
        [.pseudo name ('(' :: (escaped value ++ [')'])) true] := by
      rw [pieces_argument hne hname, cutGroup_escaped, pieces_nil]
    rw [ast_of_pieces (by rw [String.toList_ofList, hpieces]) rfl, ← argumentValue_escaped]
    rfl

/-- The pieces of a selector with an escaped blank in front of a combinator. -/
def parted : List Piece :=
  [.css ['a'], .css ['\\', ' '], .combinator .descendant [' '], .css ['b']]

theorem pieces_parted : pieces "a\\ >>> b".toList = parted := by cbv

/-- A blank is escaped at the end of a fragment, and one at the end of an argument. -/
theorem kept_parse_blank :
    dangles "a\\ >>> b".toList = false ∧ complexes parted ∈ (parse "a\\ >>> b").ast ∧
      (compounds (complexes parted)).flatMap Compound.fragments = ["a\\".toList, "b".toList] ∧
      (parse "::-p-text(\\a\\ )").ast = some [[.compound [.pseudo ⟨"text", "a"⟩]]] := by
  have hast : complexes parted ∈ (parse "a\\ >>> b").ast := ast_of_pieces pieces_parted (by decide)
  have hwhole : dangles "a\\ >>> b".toList = false := by decide
  obtain ⟨hfragments, hvalue⟩ := kept_parse hwhole (by decide : "text".toList ≠ [])
    (List.all_eq_true.mp rfl) "a ".toList
  have hruns := (hfragments _ hast).1
  rw [pieces_parted] at hruns
  exact ⟨hwhole, hast, hruns.trans (by decide), hvalue⟩

/-- The fragment ends in the backslash of an escape, and the value lacks its last character. -/
theorem not_kept_blank :
    dangles "a\\ >>> b".toList = false ∧
      (∃ ast ∈ (parse "a\\ >>> b").ast, ∃ parts ∈ compounds ast, ∃ css ∈ parts.fragments, dangles css = true) ∧
      escaped "a ".toList = "\\a\\ ".toList ∧
      (parse "::-p-text(\\a\\ )").ast = some [[.compound [.pseudo ⟨"text", "a"⟩]]] := by
  have hast : complexes parted ∈ (parse "a\\ >>> b").ast := ast_of_pieces pieces_parted (by decide)
  have hparts : compound [.css ['a'], .css ['\\', ' ']] ∈ compounds (complexes parted) := by
    rw [compounds_complexes]
    decide
  refine ⟨by decide, ⟨_, hast, _, hparts, "a\\".toList, by decide, by decide⟩, by decide, ?_⟩
  have hpieces : pieces "::-p-text(\\a\\ )".toList =
      [.pseudo "text".toList "(\\a\\ )".toList true] := by cbv
  rw [ast_of_pieces hpieces (by decide)]
  decide

end Wayfind.Selector
