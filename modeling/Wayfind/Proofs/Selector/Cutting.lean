/-
How printed text is cut.

The scanner looks at one character, and some spans run far beyond it.  In printed text
every span ends where it should: a quoted string at its closing quote, because quotes and
backslashes within it are escaped, and a group at its closing bracket, because all brackets
within it stand in strings.  So the pieces of a fragment are the same whatever comes
behind it, all of them CSS (`pieces_append`), and a pseudo node is one piece
(`pieces_pseudo`).
-/
import Wayfind.Proofs.Selector.Print

namespace Wayfind.Selector

/-! ### Groups -/

/-- The cut with more text in front. -/
def GroupCut.prepend (cs : List Char) (cut : GroupCut) : GroupCut :=
  { cut with taken := cs ++ cut.taken }

section

variable (opening closing : Char) {depth : Nat}

/-- Within a string everything up to the closing quote is taken. -/
theorem cutGroupAt_escape (value rest : List Char) :
    cutGroupAt opening closing (some '"') depth (escape value ++ '"' :: rest) =
      (cutGroupAt opening closing none depth rest).prepend (escape value ++ ['"']) := by
  induction value with
  | nil =>
    rw [escape, List.nil_append, List.nil_append, cutGroupAt, if_pos rfl]
    · rfl
    · simp
  | cons c value ih =>
    by_cases hc : c = '"' ∨ c = '\\'
    · have : escape (c :: value) = '\\' :: c :: escape value := by simp [escape, hc]
      rw [this, List.cons_append, List.cons_append, cutGroupAt, ih]
      rfl
    · push Not at hc
      have : escape (c :: value) = c :: escape value := by simp [escape, hc]
      rw [this, List.cons_append, cutGroupAt, if_neg hc.1, ih]
      · rfl
      · exact fun _ _ h _ => hc.2 h

/-- A quoted string is taken as a whole. -/
theorem cutGroupAt_quoted (value rest : List Char) :
    cutGroupAt opening closing none depth (quoted value ++ rest) =
      (cutGroupAt opening closing none depth rest).prepend (quoted value) := by
  have happend : quoted value ++ rest = '"' :: (escape value ++ '"' :: rest) := by simp [quoted]
  rw [happend, cutGroupAt, if_pos (by rfl), cutGroupAt_escape]
  · rfl
  · simp

/-- A character that is no bracket, no quote and no backslash is taken. -/
theorem cutGroupAt_cons {c : Char} (hquote : isQuote c = false) (hescape : c ≠ '\\')
    (hopening : c ≠ opening) (hclosing : c ≠ closing) (rest : List Char) :
    cutGroupAt opening closing none depth (c :: rest) =
      (cutGroupAt opening closing none depth rest).push c := by
  rw [cutGroupAt, if_neg (by simp [hquote]), if_neg hopening, if_neg hclosing]
  exact fun _ _ h _ => hescape h

/-- The group a text starts with is open once behind its bracket. -/
theorem cutGroup_cons (hquote : isQuote opening = false) (hescape : opening ≠ '\\')
    (rest : List Char) :
    cutGroup opening closing (opening :: rest) =
      (cutGroupAt opening closing none 1 rest).push opening := by
  rw [cutGroup, cutGroupAt, if_neg (by simp [hquote]), if_pos rfl]
  exact fun _ _ h _ => hescape h

/-- The group ends at the bracket that closes it. -/
theorem cutGroupAt_closing (hquote : isQuote closing = false) (hescape : closing ≠ '\\')
    (hne : closing ≠ opening) (rest : List Char) :
    cutGroupAt opening closing none 1 (closing :: rest) = ⟨[closing], rest, true⟩ := by
  rw [cutGroupAt, if_neg (by simp [hquote]), if_neg hne, if_pos rfl, if_pos (le_refl 1)]
  exact fun _ _ h _ => hescape h

end

/-- The argument of a pseudo node is one group. -/
theorem cutGroup_argument (value rest : List Char) :
    cutGroup '(' ')' ('(' :: (quoted value ++ ')' :: rest)) =
      ⟨'(' :: (quoted value ++ [')']), rest, true⟩ := by
  rw [cutGroup_cons _ _ (by decide) (by decide), cutGroupAt_quoted,
    cutGroupAt_closing _ _ (by decide) (by decide) (by decide)]
  rfl

theorem isIdentChar_ne {c d : Char} (hc : Piece.isIdentChar c = true)
    (hd : Piece.isIdentChar d = false) : c ≠ d := by
  rintro rfl
  rw [hc] at hd
  exact Bool.noConfusion hd

/-- The characters of a word have no meaning within an attribute test. -/
theorem cutGroupAt_word {word : List Char} (hword : ∀ c ∈ word, Piece.isIdentChar c = true)
    {depth : Nat} (rest : List Char) :
    cutGroupAt '[' ']' none depth (word ++ rest) =
      (cutGroupAt '[' ']' none depth rest).prepend word := by
  induction word with
  | nil => rfl
  | cons c word ih =>
    have hc : Piece.isIdentChar c = true := hword c List.mem_cons_self
    have hquote : isQuote c = false := by
      have hdouble : c ≠ '"' := isIdentChar_ne hc (by decide)
      have hsingle : c ≠ '\'' := isIdentChar_ne hc (by decide)
      simp [isQuote, hdouble, hsingle]
    rw [List.cons_append, cutGroupAt_cons _ _ hquote (isIdentChar_ne hc (by decide))
      (isIdentChar_ne hc (by decide)) (isIdentChar_ne hc (by decide)),
      ih fun d hd => hword d (List.mem_cons_of_mem c hd)]
    rfl

/-- An attribute test is one group. -/
theorem cutGroup_attribute {word : List Char} (hword : ∀ c ∈ word, Piece.isIdentChar c = true)
    (value rest : List Char) :
    cutGroup '[' ']' ('[' :: (word ++ '=' :: (quoted value ++ ']' :: rest))) =
      ⟨'[' :: (word ++ '=' :: (quoted value ++ [']'])), rest, true⟩ := by
  rw [cutGroup_cons _ _ (by decide) (by decide), cutGroupAt_word hword,
    cutGroupAt_cons _ _ (by decide) (by decide) (by decide) (by decide), cutGroupAt_quoted,
    cutGroupAt_closing _ _ (by decide) (by decide) (by decide)]
  rfl

/-! ### Pieces -/

/-- A plain character is a piece of its own. -/
theorem pieces_plain {c : Char} (hc : isPlain c = true) (rest : List Char) :
    pieces (c :: rest) = .css [c] :: pieces rest := by
  have hnext : Piece.next c rest = (.css [c], rest) := by
    unfold Piece.next
    split
    all_goals first
      | rfl
      | exact absurd hc (by decide)
  rw [pieces_cons, hnext]

/-- An attribute test is a piece of its own. -/
theorem pieces_attribute {word : List Char} (hword : ∀ c ∈ word, Piece.isIdentChar c = true)
    (value rest : List Char) :
    pieces ('[' :: (word ++ '=' :: (quoted value ++ ']' :: rest))) =
      .css ('[' :: (word ++ '=' :: (quoted value ++ [']']))) :: pieces rest := by
  have hnext : ∀ cs, Piece.next '[' cs = Piece.cutCssGroup '[' ']' ('[' :: cs) := fun _ => rfl
  rw [pieces_cons, hnext, Piece.cutCssGroup, cutGroup_attribute hword]

/-- Only CSS comes from a fragment. -/
theorem pieces_css {cs : List Char} (h : CssText cs) : ∀ p ∈ pieces cs, ∃ text, p = .css text := by
  induction h with
  | nil => simp
  | plain hc _ ih =>
    rw [pieces_plain hc]
    intro p hp
    rcases List.mem_cons.mp hp with rfl | hp
    · exact ⟨_, rfl⟩
    · exact ih p hp
  | test value hword _ ih =>
    rw [pieces_attribute hword]
    intro p hp
    rcases List.mem_cons.mp hp with rfl | hp
    · exact ⟨_, rfl⟩
    · exact ih p hp

/-- A fragment falls into the same pieces whatever comes behind it. -/
theorem pieces_append {cs : List Char} (h : CssText cs) (rest : List Char) :
    pieces (cs ++ rest) = pieces cs ++ pieces rest := by
  induction h with
  | nil => simp
  | plain hc _ ih =>
    rw [List.cons_append, pieces_plain hc, pieces_plain hc, ih, List.cons_append]
  | @test word cs value hword _ ih =>
    have happend : '[' :: (word ++ '=' :: (quoted value ++ ']' :: cs)) ++ rest =
        '[' :: (word ++ '=' :: (quoted value ++ ']' :: (cs ++ rest))) := by simp
    rw [happend, pieces_attribute hword, pieces_attribute hword, ih, List.cons_append]

/-- A name behind the mark makes a pseudo node, and the group behind the name is its argument. -/
theorem pieces_argument {name : List Char} (hne : name ≠ [])
    (hname : ∀ c ∈ name, Piece.isNameChar c = true) (cs : List Char) :
    pieces (Piece.pseudoMark ++ (name ++ '(' :: cs)) =
      .pseudo name (cutGroup '(' ')' ('(' :: cs)).taken (cutGroup '(' ')' ('(' :: cs)).closed ::
        pieces (cutGroup '(' ')' ('(' :: cs)).left := by
  have hnext : Piece.next ':' (':' :: '-' :: 'p' :: '-' :: (name ++ '(' :: cs)) =
      Piece.cutPseudo (name ++ '(' :: cs) := rfl
  have htake : (name ++ '(' :: cs).takeWhile Piece.isNameChar = name := by
    rw [List.takeWhile_append_of_pos hname, List.takeWhile_cons_of_neg (by decide), List.append_nil]
  have hdrop : (name ++ '(' :: cs).dropWhile Piece.isNameChar = '(' :: cs := by
    rw [List.dropWhile_append_of_pos hname, List.dropWhile_cons_of_neg (by decide)]
  show pieces (':' :: ':' :: '-' :: 'p' :: '-' :: (name ++ '(' :: cs)) = _
  rw [pieces_cons, hnext, Piece.cutPseudo, htake, hdrop, if_neg hne, Piece.cutArgument]

/-- A pseudo node is a piece of its own. -/
theorem pieces_pseudo {node : PseudoNode} (hne : node.name.toList ≠ [])
    (hname : ∀ c ∈ node.name.toList, Piece.isNameChar c = true) (rest : List Char) :
    pieces ((Part.pseudo node).print ++ rest) =
      .pseudo node.name.toList ('(' :: (quoted node.value.toList ++ [')'])) true ::
        pieces rest := by
  have hprint : (Part.pseudo node).print ++ rest = Piece.pseudoMark ++
      (node.name.toList ++ '(' :: (quoted node.value.toList ++ ')' :: rest)) := by
    simp [Part.print]
  rw [hprint, pieces_argument hne hname, cutGroup_argument]

/-- A combinator takes the blanks behind it along. -/
theorem pieces_combinator (c : Combinator) (rest : List Char) :
    ∃ blanks, pieces (c.text.toList ++ ' ' :: rest) =
      .combinator c blanks :: pieces (Text.trimStart rest) := by
  refine ⟨(Piece.cutBlanks (' ' :: rest)).1, ?_⟩
  cases c with
  | descendant => exact pieces_cons _ _
  | child => exact pieces_cons _ _

/-- A comma takes the blanks behind it along. -/
theorem pieces_comma (rest : List Char) :
    ∃ blanks, pieces (',' :: ' ' :: rest) = .comma blanks :: pieces (Text.trimStart rest) :=
  ⟨(Piece.cutBlanks (' ' :: rest)).1, pieces_cons _ _⟩

end Wayfind.Selector
