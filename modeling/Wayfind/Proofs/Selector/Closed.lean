/-
Texts in which everything is closed.

What a text opens may reach beyond its end: a string, a group or an escape that is not closed
takes what comes behind along.  A text is `Closed` when nothing in it does.  Then it falls into
the same pieces whatever comes behind it, if only no word and no combinator goes on there; a
comma or a blank sees to that (`pieces_closed`).  One thing is left: a separator takes the
blanks behind it along, and so the last piece of the text may take that blank.
-/
import Wayfind.Proofs.Selector.Cutting

namespace Wayfind.Selector

/-! ### What is closed -/

/-- The text starts within a string and ends with the quote that closes it. -/
inductive StringEnd (quote : Char) : List Char → Prop where
  | close : StringEnd quote [quote]
  | escape (c : Char) {rest : List Char} (h : StringEnd quote rest) : StringEnd quote ('\\' :: c :: rest)
  | char {c : Char} (hquote : c ≠ quote) (hescape : c ≠ '\\') {rest : List Char}
      (h : StringEnd quote rest) : StringEnd quote (c :: rest)

/-- The text starts within a group in which `depth` more are open, and ends with the bracket that
closes it. -/
inductive GroupEnd (opening closing : Char) : Nat → List Char → Prop where
  | close : GroupEnd opening closing 0 [closing]
  | inner {depth : Nat} {rest : List Char} (h : GroupEnd opening closing depth rest) :
      GroupEnd opening closing (depth + 1) (closing :: rest)
  | nested {depth : Nat} {rest : List Char} (h : GroupEnd opening closing (depth + 1) rest) :
      GroupEnd opening closing depth (opening :: rest)
  | escape (c : Char) {depth : Nat} {rest : List Char} (h : GroupEnd opening closing depth rest) :
      GroupEnd opening closing depth ('\\' :: c :: rest)
  | string {quote : Char} (hquote : isQuote quote = true) {body : List Char}
      (hbody : StringEnd quote body) {depth : Nat} {rest : List Char}
      (h : GroupEnd opening closing depth rest) :
      GroupEnd opening closing depth (quote :: (body ++ rest))
  | char {c : Char} (hquote : isQuote c = false) (hescape : c ≠ '\\') (hopening : c ≠ opening)
      (hclosing : c ≠ closing) {depth : Nat} {rest : List Char}
      (h : GroupEnd opening closing depth rest) : GroupEnd opening closing depth (c :: rest)

/-- The brackets of a group. -/
inductive Brackets : Char → Char → Prop where
  | square : Brackets '[' ']'
  | round : Brackets '(' ')'

/-- The characters that open something. -/
def openers : List Char := ['"', '\'', '[', '(', '\\']

/-- Every string, every group and every escape of the text is closed in it. -/
inductive Closed : List Char → Prop where
  | nil : Closed []
  | escape (c : Char) {rest : List Char} (h : Closed rest) : Closed ('\\' :: c :: rest)
  | string {quote : Char} (hquote : isQuote quote = true) {body : List Char}
      (hbody : StringEnd quote body) {rest : List Char} (h : Closed rest) :
      Closed (quote :: (body ++ rest))
  | group {opening closing : Char} (hbrackets : Brackets opening closing) {body : List Char}
      (hbody : GroupEnd opening closing 0 body) {rest : List Char} (h : Closed rest) :
      Closed (opening :: (body ++ rest))
  | char {c : Char} (hc : c ∉ openers) {rest : List Char} (h : Closed rest) : Closed (c :: rest)

/-! ### Cutting what is closed -/

section Cutting

variable {quote opening closing c : Char} {body rest cs : List Char}

theorem isQuote_ne_escape (h : isQuote quote = true) : quote ≠ '\\' := by
  rintro rfl
  exact absurd h (by decide)

/-- A string ends at its closing quote. -/
theorem cutString_closed (hquote : quote ≠ '\\') (h : StringEnd quote body) (rest : List Char) :
    cutString quote (body ++ rest) = (body, rest) := by
  induction h with
  | close =>
    rw [List.singleton_append, cutString, if_pos rfl]
    exact fun _ _ hc _ => hquote hc
  | escape c _ ih => rw [List.cons_append, List.cons_append, cutString, ih]
  | char hne hescape _ ih =>
    rw [List.cons_append, cutString, if_neg hne, ih]
    exact fun _ _ hc _ => hescape hc

/-- Within a group, a string is taken up to its closing quote. -/
theorem cutGroupAt_closedString (hquote : quote ≠ '\\') (h : StringEnd quote body) (depth : Nat)
    (rest : List Char) :
    cutGroupAt opening closing (some quote) depth (body ++ rest) =
      (cutGroupAt opening closing none depth rest).prepend body := by
  induction h with
  | close =>
    rw [List.singleton_append, cutGroupAt, if_pos rfl]
    · rfl
    · exact fun _ _ hc _ => hquote hc
  | escape c _ ih =>
    rw [List.cons_append, List.cons_append, cutGroupAt, ih]
    rfl
  | char hne hescape _ ih =>
    rw [List.cons_append, cutGroupAt, if_neg hne, ih]
    · rfl
    · exact fun _ _ hc _ => hescape hc

namespace Brackets

variable (h : Brackets opening closing)
include h

theorem opening_not_quote : isQuote opening = false := by cases h <;> decide

theorem closing_not_quote : isQuote closing = false := by cases h <;> decide

theorem opening_ne_escape : opening ≠ '\\' := by cases h <;> decide

theorem closing_ne_escape : closing ≠ '\\' := by cases h <;> decide

theorem closing_ne_opening : closing ≠ opening := by cases h <;> decide

end Brackets

/-- A group ends at the bracket that closes it. -/
theorem cutGroupAt_closed (hbrackets : Brackets opening closing) {depth : Nat}
    (h : GroupEnd opening closing depth body) (rest : List Char) :
    cutGroupAt opening closing none (depth + 1) (body ++ rest) = ⟨body, rest, true⟩ := by
  induction h with
  | close =>
    exact cutGroupAt_closing _ _ hbrackets.closing_not_quote hbrackets.closing_ne_escape
      hbrackets.closing_ne_opening rest
  | inner _ ih =>
    rw [List.cons_append, cutGroupAt, if_neg (by simp [hbrackets.closing_not_quote]),
      if_neg hbrackets.closing_ne_opening, if_pos rfl, if_neg (by omega), Nat.add_sub_cancel, ih]
    · rfl
    · exact fun _ _ hc _ => hbrackets.closing_ne_escape hc
  | nested _ ih =>
    rw [List.cons_append, cutGroupAt, if_neg (by simp [hbrackets.opening_not_quote]), if_pos rfl, ih]
    · rfl
    · exact fun _ _ hc _ => hbrackets.opening_ne_escape hc
  | escape c _ ih =>
    rw [List.cons_append, List.cons_append, cutGroupAt, ih]
    rfl
  | string hquote hbody _ ih =>
    rw [List.cons_append, List.append_assoc, cutGroupAt, if_pos hquote,
      cutGroupAt_closedString (isQuote_ne_escape hquote) hbody, ih]
    · rfl
    · exact fun _ _ hc _ => isQuote_ne_escape hquote hc
  | char hquote hescape hopening hclosing _ ih =>
    rw [List.cons_append, cutGroupAt_cons _ _ hquote hescape hopening hclosing, ih]
    rfl

theorem cutGroup_closed (hbrackets : Brackets opening closing)
    (h : GroupEnd opening closing 0 body) (rest : List Char) :
    cutGroup opening closing (opening :: (body ++ rest)) = ⟨opening :: body, rest, true⟩ := by
  rw [cutGroup_cons _ _ hbrackets.opening_not_quote hbrackets.opening_ne_escape,
    cutGroupAt_closed hbrackets h]
  rfl

/-! ### What is left of a closed text -/

/-- Behind a character that opens nothing the text is closed, too. -/
theorem Closed.tail (h : Closed (c :: rest)) (hc : c ∉ openers) : Closed rest := by
  cases h with
  | escape => exact absurd (by decide) hc
  | string hquote =>
    simp only [isQuote, Bool.or_eq_true, decide_eq_true_eq] at hquote
    rcases hquote with rfl | rfl <;> exact absurd (by decide) hc
  | group hbrackets => cases hbrackets <;> exact absurd (by decide) hc
  | char _ h => exact h

theorem Closed.dropWhile {p : Char → Bool} (hp : openers.any p = false) (h : Closed cs) :
    Closed (cs.dropWhile p) := by
  induction cs with
  | nil => exact h
  | cons c cs ih =>
    by_cases hc : p c = true
    · rw [List.dropWhile_cons_of_pos hc]
      exact ih (h.tail fun hopens => List.any_eq_false.mp hp c hopens hc)
    · rw [List.dropWhile_cons_of_neg hc]
      exact h

theorem Closed.string_inv (h : Closed (quote :: rest)) (hquote : isQuote quote = true) :
    ∃ body left, StringEnd quote body ∧ Closed left ∧ rest = body ++ left := by
  cases h with
  | escape => exact absurd hquote (by decide)
  | string _ hbody hrest => exact ⟨_, _, hbody, hrest, rfl⟩
  | group hbrackets =>
    rw [hbrackets.opening_not_quote] at hquote
    exact absurd hquote Bool.false_ne_true
  | char hc =>
    simp only [isQuote, Bool.or_eq_true, decide_eq_true_eq] at hquote
    rcases hquote with rfl | rfl <;> exact absurd (by decide) hc

theorem Closed.escape_inv (h : Closed ('\\' :: rest)) : ∃ c left, Closed left ∧ rest = c :: left := by
  cases h with
  | escape c hrest => exact ⟨c, _, hrest, rfl⟩
  | string hquote => exact absurd hquote (by decide)
  | group hbrackets => exact absurd rfl hbrackets.opening_ne_escape
  | char hc => exact absurd (by decide) hc

theorem Closed.group_inv (hbrackets : Brackets opening closing) (h : Closed (opening :: rest)) :
    ∃ body left, GroupEnd opening closing 0 body ∧ Closed left ∧ rest = body ++ left := by
  cases h with
  | escape => exact absurd rfl hbrackets.opening_ne_escape
  | string hquote =>
    rw [hbrackets.opening_not_quote] at hquote
    exact absurd hquote Bool.false_ne_true
  | group hbrackets' hbody hrest =>
    cases hbrackets <;> cases hbrackets' <;> exact ⟨_, _, hbody, hrest, rfl⟩
  | char hc => cases hbrackets <;> exact absurd (by decide) hc

end Cutting

/-! ### The first piece of a closed text -/

/-- A character at which words and combinators end. -/
def Stops (d : Char) : Prop := d = ',' ∨ d = ' '

/-- The separators are the same, but for the blanks behind them. -/
inductive Reblanked : Piece → Piece → Prop where
  | comma (blanks blanks' : List Char) : Reblanked (.comma blanks) (.comma blanks')
  | combinator (c : Combinator) (blanks blanks' : List Char) :
      Reblanked (.combinator c blanks) (.combinator c blanks')

/-- How a text is cut when more comes behind it: in the same place, or as far as the blanks go that a
separator at its end takes along. -/
def Extends (cut more : Piece × List Char) (d : Char) (tail : List Char) : Prop :=
  more = (cut.1, cut.2 ++ d :: tail) ∨
    d = ' ' ∧ cut.2 = [] ∧ Reblanked cut.1 more.1 ∧ more.2 = Text.trimStart tail

section Next

variable {c d : Char} {rest cs : List Char} {tail : List Char}

theorem takeWhile_append_stop {p : Char → Bool} (hd : p d = false) (cs tail : List Char) :
    (cs ++ d :: tail).takeWhile p = cs.takeWhile p := by
  induction cs with
  | nil => exact List.takeWhile_cons_of_neg (by simp [hd])
  | cons c cs ih =>
    by_cases hc : p c = true
    · rw [List.cons_append, List.takeWhile_cons_of_pos hc, List.takeWhile_cons_of_pos hc, ih]
    · rw [List.cons_append, List.takeWhile_cons_of_neg hc, List.takeWhile_cons_of_neg hc]

theorem dropWhile_append_stop {p : Char → Bool} (hd : p d = false) (cs tail : List Char) :
    (cs ++ d :: tail).dropWhile p = cs.dropWhile p ++ d :: tail := by
  induction cs with
  | nil => exact List.dropWhile_cons_of_neg (by simp [hd])
  | cons c cs ih =>
    by_cases hc : p c = true
    · rw [List.cons_append, List.dropWhile_cons_of_pos hc, List.dropWhile_cons_of_pos hc, ih]
    · rw [List.cons_append, List.dropWhile_cons_of_neg hc, List.dropWhile_cons_of_neg hc]
      rfl

/-- A separator may take the blank that comes behind the text. -/
theorem extends_blanks (hd : Stops d) {f : List Char → Piece}
    (hf : ∀ blanks blanks', Reblanked (f blanks) (f blanks')) (cs tail : List Char) :
    Extends (f (Piece.cutBlanks cs).1, (Piece.cutBlanks cs).2)
      (f (Piece.cutBlanks (cs ++ d :: tail)).1, (Piece.cutBlanks (cs ++ d :: tail)).2) d tail := by
  unfold Piece.cutBlanks
  rcases hd with rfl | rfl
  · left
    rw [takeWhile_append_stop (by decide), dropWhile_append_stop (by decide)]
  · by_cases hblank : cs.dropWhile Text.isBlank = []
    · right
      refine ⟨rfl, hblank, hf _ _, ?_⟩
      show (cs ++ ' ' :: tail).dropWhile Text.isBlank = Text.trimStart tail
      rw [List.dropWhile_append, if_pos (List.isEmpty_iff.mpr hblank),
        List.dropWhile_cons_of_pos (by decide)]
      rfl
    · left
      have hlength : (cs.takeWhile Text.isBlank).length ≠ cs.length := by
        have hwhole := congrArg List.length (List.takeWhile_append_dropWhile (p := Text.isBlank) (l := cs))
        have hpos := List.length_pos_iff.mpr hblank
        rw [List.length_append] at hwhole
        omega
      rw [List.takeWhile_append, if_neg hlength, List.dropWhile_append,
        if_neg fun h => hblank (List.isEmpty_iff.mp h)]

theorem cutArgument_closed (hd : Stops d) (h : Closed cs) (tail : List Char) :
    Piece.cutArgument (cs ++ d :: tail) =
        ⟨(Piece.cutArgument cs).taken, (Piece.cutArgument cs).left ++ d :: tail,
          (Piece.cutArgument cs).closed⟩ ∧
      Closed (Piece.cutArgument cs).left := by
  have hother : ∀ {c : Char} (cs : List Char), c ≠ '(' →
      Piece.cutArgument (c :: cs) = ⟨[], c :: cs, false⟩ := by
    intro c cs hc
    unfold Piece.cutArgument
    split
    · rename_i heq
      exact absurd (List.cons.inj heq).1 hc
    · rfl
  cases cs with
  | nil =>
    have hd' : d ≠ '(' := by rcases hd with rfl | rfl <;> decide
    exact ⟨hother tail hd', .nil⟩
  | cons c cs =>
    by_cases hc : c = '('
    · subst hc
      obtain ⟨body, left, hbody, hleft, rfl⟩ := h.group_inv .round
      have hcut : ∀ rest, Piece.cutArgument ('(' :: (body ++ rest)) = ⟨'(' :: body, rest, true⟩ :=
        fun rest => cutGroup_closed .round hbody rest
      rw [List.cons_append, List.append_assoc, hcut, hcut]
      exact ⟨rfl, hleft⟩
    · rw [List.cons_append, hother _ hc, hother _ hc]
      exact ⟨rfl, h⟩

/-- A name, with an argument in parentheses or without, ends before a character that stops it. -/
theorem cutPseudo_closed (hd : Stops d) (h : Closed cs) (tail : List Char) :
    Piece.cutPseudo (cs ++ d :: tail) =
        ((Piece.cutPseudo cs).1, (Piece.cutPseudo cs).2 ++ d :: tail) ∧
      Closed (Piece.cutPseudo cs).2 := by
  have hstop : Piece.isNameChar d = false := by rcases hd with rfl | rfl <;> decide
  have hrest : Closed (cs.dropWhile Piece.isNameChar) := h.dropWhile (by decide)
  obtain ⟨hcut, hleft⟩ := cutArgument_closed hd hrest tail
  unfold Piece.cutPseudo
  rw [takeWhile_append_stop hstop, dropWhile_append_stop hstop]
  split
  · exact ⟨rfl, h⟩
  · rw [hcut]
    exact ⟨rfl, hleft⟩

theorem cutPseudoClass_closed (hd : Stops d) (h : Closed cs) (tail : List Char) :
    Piece.cutPseudoClass (cs ++ d :: tail) =
        ((Piece.cutPseudoClass cs).1, (Piece.cutPseudoClass cs).2 ++ d :: tail) ∧
      Closed (Piece.cutPseudoClass cs).2 := by
  have hstop : Piece.isIdentChar d = false := by rcases hd with rfl | rfl <;> decide
  have hrest : Closed (cs.dropWhile Piece.isIdentChar) := h.dropWhile (by decide)
  obtain ⟨hcut, hleft⟩ := cutArgument_closed hd hrest tail
  unfold Piece.cutPseudoClass
  rw [takeWhile_append_stop hstop, dropWhile_append_stop hstop]
  split
  · exact ⟨rfl, h⟩
  · rw [hcut]
    exact ⟨rfl, hleft⟩

theorem next_descendant (hrest : ¬ ['>'] <+: rest) :
    Piece.next '>' ('>' :: '>' :: rest) = Piece.cutCombinator .descendant rest := by
  unfold Piece.next
  split <;> simp_all

theorem next_greater (hrest : ¬ ['>', '>'] <+: rest) : Piece.next '>' rest = (.css ['>'], rest) := by
  unfold Piece.next
  split <;> simp_all

theorem next_colons (hrest : ¬ ['-', 'p', '-'] <+: rest) :
    Piece.next ':' (':' :: rest) = (.css [':', ':'], rest) := by
  unfold Piece.next
  split <;> simp_all

theorem next_colon (hrest : ¬ [':'] <+: rest) :
    Piece.next ':' rest = Piece.cutPseudoClass rest := by
  unfold Piece.next
  split <;> simp_all

theorem next_other (hopens : c ∉ openers) (hc : c ∉ ['>', ':', ',']) :
    Piece.next c rest = (.css [c], rest) := by
  unfold Piece.next
  split <;> simp_all [openers]

/-- A text that goes on behind a character starts like this only if it did before. -/
theorem prefix_append_stop {pre : List Char} (hd : d ∉ pre) :
    pre <+: cs ++ d :: tail ↔ pre <+: cs := by
  refine ⟨fun h => ?_, fun h => h.trans (List.prefix_append _ _)⟩
  rcases List.prefix_or_prefix_of_prefix h (List.prefix_append cs (d :: tail)) with hpre | hcs
  · exact hpre
  · obtain ⟨more, rfl⟩ := hcs
    rw [List.prefix_append_right_inj] at h
    cases more with
    | nil => simp
    | cons x more =>
      have hx : x = d := (List.cons_prefix_cons.mp h).1
      exact absurd (hx ▸ List.mem_append_right cs List.mem_cons_self) hd

/-- The blanks that a separator takes leave a closed text closed. -/
theorem Closed.cutBlanks (h : Closed cs) : Closed (Piece.cutBlanks cs).2 := h.dropWhile (by decide)

/-- A combinator does not go on behind the text. -/
theorem greater_closed (hd : Stops d) (h : Closed rest) (tail : List Char) :
    Extends (Piece.next '>' rest) (Piece.next '>' (rest ++ d :: tail)) d tail ∧
      Closed (Piece.next '>' rest).2 := by
  have hstop : '>' ≠ d := by rcases hd with rfl | rfl <;> decide
  by_cases hlong : ['>', '>'] <+: rest
  · obtain ⟨cs, rfl⟩ := hlong
    have hcs : Closed cs := (h.tail (by decide)).tail (by decide)
    by_cases hchild : ['>'] <+: cs
    · obtain ⟨cs, rfl⟩ := hchild
      exact ⟨extends_blanks hd (Reblanked.combinator .child) cs tail, (hcs.tail (by decide)).cutBlanks⟩
    · have hnext : Piece.next '>' (['>', '>'] ++ cs) = Piece.cutCombinator .descendant cs :=
        next_descendant hchild
      have hmore : Piece.next '>' (['>', '>'] ++ cs ++ d :: tail) =
          Piece.cutCombinator .descendant (cs ++ d :: tail) :=
        next_descendant (mt (prefix_append_stop (by simp [hstop.symm])).mp hchild)
      rw [hnext, hmore]
      exact ⟨extends_blanks hd (Reblanked.combinator .descendant) cs tail, hcs.cutBlanks⟩
  · rw [next_greater hlong, next_greater (mt (prefix_append_stop (by simp [hstop.symm])).mp hlong)]
    exact ⟨.inl rfl, h⟩

/-- Nor does what starts with a colon. -/
theorem colon_closed (hd : Stops d) (h : Closed rest) (tail : List Char) :
    Extends (Piece.next ':' rest) (Piece.next ':' (rest ++ d :: tail)) d tail ∧
      Closed (Piece.next ':' rest).2 := by
  have hmark : d ∉ ['-', 'p', '-'] := by rcases hd with rfl | rfl <;> decide
  by_cases hcolons : [':'] <+: rest
  · obtain ⟨cs, rfl⟩ := hcolons
    have hcs : Closed cs := h.tail (by decide)
    by_cases hpseudo : ['-', 'p', '-'] <+: cs
    · obtain ⟨cs, rfl⟩ := hpseudo
      have hname : Closed cs := ((hcs.tail (by decide)).tail (by decide)).tail (by decide)
      obtain ⟨hcut, hleft⟩ := cutPseudo_closed hd hname tail
      exact ⟨.inl hcut, hleft⟩
    · have hnext : Piece.next ':' ([':'] ++ cs) = (.css [':', ':'], cs) := next_colons hpseudo
      have hmore : Piece.next ':' ([':'] ++ cs ++ d :: tail) = (.css [':', ':'], cs ++ d :: tail) :=
        next_colons (mt (prefix_append_stop hmark).mp hpseudo)
      rw [hnext, hmore]
      exact ⟨.inl rfl, hcs⟩
  · have hcolon : d ∉ [':'] := by rcases hd with rfl | rfl <;> decide
    obtain ⟨hcut, hleft⟩ := cutPseudoClass_closed hd h tail
    rw [next_colon hcolons, next_colon (mt (prefix_append_stop hcolon).mp hcolons)]
    exact ⟨.inl hcut, hleft⟩

/-- What comes behind a closed text changes nothing in its first piece, unless this is a separator
that takes the blank, and what is left of the text is closed. -/
theorem next_closed (hd : Stops d) (h : Closed (c :: rest)) (tail : List Char) :
    Extends (Piece.next c rest) (Piece.next c (rest ++ d :: tail)) d tail ∧
      Closed (Piece.next c rest).2 := by
  by_cases hquote : isQuote c = true
  · obtain ⟨body, left, hbody, hleft, rfl⟩ := h.string_inv hquote
    have hcut : ∀ rest, cutString c (body ++ rest) = (body, rest) :=
      cutString_closed (isQuote_ne_escape hquote) hbody
    have hnext : ∀ rest, Piece.next c (body ++ rest) = (.css (c :: body), rest) := by
      intro rest
      simp only [isQuote, Bool.or_eq_true, decide_eq_true_eq] at hquote
      rcases hquote with rfl | rfl
      · exact congrArg (fun cut => (Piece.css ('"' :: cut.1), cut.2)) (hcut rest)
      · exact congrArg (fun cut => (Piece.css ('\'' :: cut.1), cut.2)) (hcut rest)
    rw [List.append_assoc, hnext, hnext]
    exact ⟨.inl rfl, hleft⟩
  by_cases hsquare : c = '['
  · subst hsquare
    obtain ⟨body, left, hbody, hleft, rfl⟩ := h.group_inv .square
    have hnext : ∀ rest, Piece.next '[' (body ++ rest) = (.css ('[' :: body), rest) := fun rest =>
      congrArg (fun cut => (Piece.css cut.taken, cut.left)) (cutGroup_closed .square hbody rest)
    rw [List.append_assoc, hnext, hnext]
    exact ⟨.inl rfl, hleft⟩
  by_cases hround : c = '('
  · subst hround
    obtain ⟨body, left, hbody, hleft, rfl⟩ := h.group_inv .round
    have hnext : ∀ rest, Piece.next '(' (body ++ rest) = (.css ('(' :: body), rest) := fun rest =>
      congrArg (fun cut => (Piece.css cut.taken, cut.left)) (cutGroup_closed .round hbody rest)
    rw [List.append_assoc, hnext, hnext]
    exact ⟨.inl rfl, hleft⟩
  by_cases hescape : c = '\\'
  · subst hescape
    obtain ⟨c, left, hleft, rfl⟩ := h.escape_inv
    exact ⟨.inl rfl, hleft⟩
  have hopens : c ∉ openers := by
    simp only [isQuote, Bool.or_eq_true, decide_eq_true_eq, not_or] at hquote
    simp [openers, hquote, hsquare, hround, hescape]
  have hrest : Closed rest := h.tail hopens
  by_cases hgreater : c = '>'
  · subst hgreater
    exact greater_closed hd hrest tail
  by_cases hcolon : c = ':'
  · subst hcolon
    exact colon_closed hd hrest tail
  by_cases hcomma : c = ','
  · subst hcomma
    exact ⟨extends_blanks hd Reblanked.comma rest tail, hrest.cutBlanks⟩
  · have hother : c ∉ ['>', ':', ','] := by simp [hgreater, hcolon, hcomma]
    rw [next_other hopens hother, next_other hopens hother]
    exact ⟨.inl rfl, hrest⟩

/-- A closed text falls into the same pieces, whatever comes behind the character that stops it,
unless its last piece is a separator that takes the blank. -/
theorem pieces_closed (hd : Stops d) (h : Closed cs) (tail : List Char) :
    pieces (cs ++ d :: tail) = pieces cs ++ pieces (d :: tail) ∨
      d = ' ' ∧ ∃ init p p', Reblanked p p' ∧ pieces cs = init ++ [p] ∧
        pieces (cs ++ d :: tail) = init ++ p' :: pieces (Text.trimStart tail) := by
  fun_induction pieces cs with
  | case1 => exact .inl rfl
  | case2 c rest ih =>
    obtain ⟨hextends, hclosed⟩ := next_closed hd h tail
    rw [List.cons_append, pieces_cons]
    rcases hextends with hmore | ⟨rfl, hleft, hreblanked, hmore⟩
    · rw [hmore]
      rcases ih hclosed with hpieces | ⟨hblank, init, p, p', hreblanked, hinit, hpieces⟩
      · exact .inl (congrArg (List.cons _) hpieces)
      · exact .inr ⟨hblank, _ :: init, p, p', hreblanked, congrArg (List.cons _) hinit,
          congrArg (List.cons _) hpieces⟩
    · rw [hleft, hmore, pieces_nil]
      exact .inr ⟨rfl, [], _, _, hreblanked, rfl, rfl⟩

end Next

end Wayfind.Selector
