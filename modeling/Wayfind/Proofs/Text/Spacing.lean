/-
Texts and the spaces in them.

To take a text by its words and to put them together again with one space in between leaves out
the spaces around the text and makes each run of spaces a single one (`normalize_eq_squeeze`).  A
text whose spaces are in order already stays as it is (`squeeze_of_spaced`).
-/
import Mathlib.Data.List.Destutter
import Mathlib.Data.List.DropRight
import Wayfind.Text.Split

namespace Wayfind.Text

/-- They are not both spaces. -/
def Apart (a b : Char) : Prop := a ≠ ' ' ∨ b ≠ ' '

instance : DecidableRel Apart := fun _ _ => inferInstanceAs (Decidable (_ ∨ _))

theorem apart_left {a : Char} (h : a ≠ ' ') (b : Char) : Apart a b := Or.inl h

theorem apart_right (a : Char) {b : Char} (h : b ≠ ' ') : Apart a b := Or.inr h

/-- The text without the spaces around it, and with a single space for every run of them. -/
def squeeze (cs : List Char) : List Char :=
  ((cs.dropWhile (· == ' ')).rdropWhile (· == ' ')).destutter Apart

/-- No space stands at an end of the text, and none beside another. -/
structure Spaced (cs : List Char) : Prop where
  head : cs.head? ≠ some ' '
  last : cs.getLast? ≠ some ' '
  single : ¬ [' ', ' '] <:+: cs

/-! ### Words -/

theorem segments_space (cs : List Char) : segments ' ' (' ' :: cs) = [] :: segments ' ' cs := rfl

theorem segments_cons {c : Char} (hc : c ≠ ' ') (cs : List Char) :
    ∃ first rest, segments ' ' cs = first :: rest ∧ segments ' ' (c :: cs) = (c :: first) :: rest := by
  refine ⟨_, _, rfl, ?_⟩
  simp only [segments, splitAt?, if_neg hc]

theorem words_space (cs : List Char) : words (' ' :: cs) = words cs := by
  rw [words, segments_space]
  rfl

/-- A character that a space follows is a word. -/
theorem words_cons_space {c : Char} (hc : c ≠ ' ') (cs : List Char) :
    words (c :: ' ' :: cs) = [c] :: words cs := by
  obtain ⟨first, rest, hcs, hboth⟩ := segments_cons hc (' ' :: cs)
  obtain ⟨rfl, rfl⟩ := List.cons.inj (hcs.symm.trans (segments_space cs))
  rw [words, hboth]
  rfl

/-- A character that another follows stands in one word with it. -/
theorem words_cons_cons {c d : Char} (hc : c ≠ ' ') (hd : d ≠ ' ') (cs : List Char) :
    ∃ word rest, words (d :: cs) = word :: rest ∧ words (c :: d :: cs) = (c :: word) :: rest := by
  obtain ⟨first, rest, -, hd'⟩ := segments_cons hd cs
  obtain ⟨first', rest', hcs, hboth⟩ := segments_cons hc (d :: cs)
  obtain ⟨rfl, rfl⟩ := List.cons.inj (hcs.symm.trans hd')
  refine ⟨d :: first, rest'.filter (· ≠ []), ?_, ?_⟩
  · rw [words, hd']
    rfl
  · rw [words, hboth]
    rfl

theorem ne_nil_of_mem_words {cs word : List Char} (h : word ∈ words cs) : word ≠ [] := by
  simpa using (List.mem_filter.mp h).2

/-! ### A text put together from its words -/

theorem normalize_space (cs : List Char) : normalize (' ' :: cs) = normalize cs := by
  rw [normalize, normalize, words_space]

theorem normalize_singleton {c : Char} (hc : c ≠ ' ') : normalize [c] = [c] := by
  obtain ⟨first, rest, hnil, hone⟩ := segments_cons hc []
  obtain ⟨rfl, rfl⟩ := List.cons.inj (hnil.symm.trans (rfl : segments ' ' [] = [[]]))
  rw [normalize, words, hone]
  rfl

theorem normalize_cons_cons {c d : Char} (hc : c ≠ ' ') (hd : d ≠ ' ') (cs : List Char) :
    normalize (c :: d :: cs) = c :: normalize (d :: cs) := by
  obtain ⟨word, rest, hsecond, hboth⟩ := words_cons_cons hc hd cs
  rw [normalize, normalize, hsecond, hboth]
  cases rest with
  | nil => rw [List.intercalate_singleton, List.intercalate_singleton]
  | cons next rest =>
    rw [List.intercalate_cons_cons, List.intercalate_cons_cons]
    rfl

theorem normalize_cons_space {c : Char} (hc : c ≠ ' ') (cs : List Char) :
    normalize (c :: ' ' :: cs) = if normalize cs = [] then [c] else c :: ' ' :: normalize cs := by
  rw [normalize, normalize, words_cons_space hc]
  cases hwords : words cs with
  | nil => rfl
  | cons word rest =>
    have hne : word ≠ [] := ne_nil_of_mem_words (hwords ▸ List.mem_cons_self)
    obtain ⟨d, word, rfl⟩ := List.exists_cons_of_ne_nil hne
    rw [if_neg, List.intercalate_cons_cons]
    · rfl
    · cases rest with
      | nil => exact List.cons_ne_nil _ _
      | cons next rest =>
        rw [List.intercalate_cons_cons]
        exact List.cons_ne_nil _ _

/-! ### A text with its spaces squeezed -/

/-- The end is cut off the whole list only where nothing is left of the rest. -/
theorem rdropWhile_cons {α : Type} (p : α → Bool) (a : α) (l : List α) :
    (a :: l).rdropWhile p = if l.rdropWhile p = [] ∧ p a = true then [] else a :: l.rdropWhile p := by
  unfold List.rdropWhile
  rw [List.reverse_cons, List.dropWhile_append]
  by_cases hl : l.reverse.dropWhile p = []
  · by_cases ha : p a = true <;> simp [hl, ha]
  · simp [hl]

theorem squeeze_nil : squeeze [] = [] := rfl

theorem squeeze_space (cs : List Char) : squeeze (' ' :: cs) = squeeze cs := rfl

theorem rdropWhile_cons_of_ne {c : Char} (hc : c ≠ ' ') (cs : List Char) :
    (c :: cs).rdropWhile (· == ' ') = c :: cs.rdropWhile (· == ' ') := by
  rw [rdropWhile_cons, if_neg fun h => hc (beq_iff_eq.mp h.2)]

/-- Behind a character that is no space only the spaces at the end are cut off. -/
theorem squeeze_cons {c : Char} (hc : c ≠ ' ') (cs : List Char) :
    squeeze (c :: cs) = (cs.rdropWhile (· == ' ')).destutter' Apart c := by
  have hhead : (c :: cs).dropWhile (· == ' ') = c :: cs :=
    List.dropWhile_cons_of_neg fun h => hc (beq_iff_eq.mp h)
  rw [squeeze, hhead, rdropWhile_cons_of_ne hc, List.destutter_cons']

theorem squeeze_cons_ne_nil {c : Char} (hc : c ≠ ' ') (cs : List Char) : squeeze (c :: cs) ≠ [] := by
  rw [squeeze_cons hc]
  exact List.destutter'_ne_nil _ _

theorem squeeze_cons_cons {c d : Char} (hc : c ≠ ' ') (hd : d ≠ ' ') (cs : List Char) :
    squeeze (c :: d :: cs) = c :: squeeze (d :: cs) := by
  rw [squeeze_cons hc, squeeze_cons hd, rdropWhile_cons_of_ne hd,
    List.destutter'_cons_pos (h := apart_left hc d)]

theorem squeeze_cons_space {c : Char} (hc : c ≠ ' ') (cs : List Char) :
    squeeze (c :: ' ' :: cs) = if squeeze cs = [] then [c] else c :: ' ' :: squeeze cs := by
  induction cs with
  | nil =>
    rw [squeeze_cons hc]
    rfl
  | cons d rest ih =>
    by_cases hd : d = ' '
    · -- One more space in a run changes nothing.
      subst hd
      have hsame : squeeze (c :: ' ' :: ' ' :: rest) = squeeze (c :: ' ' :: rest) := by
        rw [squeeze_cons hc, squeeze_cons hc, rdropWhile_cons _ ' ' (' ' :: rest), rdropWhile_cons _ ' ' rest]
        by_cases hrest : rest.rdropWhile (· == ' ') = []
        · simp only [hrest, beq_self_eq_true, and_self, if_pos]
        · simp only [hrest, false_and, if_false, List.cons_ne_nil]
          rw [List.destutter'_cons_pos (h := apart_left hc ' '), List.destutter'_cons_pos (h := apart_left hc ' '),
            List.destutter'_cons_neg (h := (by decide : ¬ Apart ' ' ' '))]
      rw [hsame, squeeze_space]
      exact ih
    · rw [if_neg (squeeze_cons_ne_nil hd rest), squeeze_cons hc, squeeze_cons hd, rdropWhile_cons,
        rdropWhile_cons_of_ne hd, if_neg fun h => List.cons_ne_nil _ _ h.1,
        List.destutter'_cons_pos (h := apart_left hc ' '), List.destutter'_cons_pos (h := apart_right ' ' hd)]

/-- To put the words of a text together again squeezes its spaces. -/
theorem normalize_eq_squeeze (cs : List Char) : normalize cs = squeeze cs := by
  induction cs with
  | nil => rfl
  | cons c rest ih =>
    by_cases hc : c = ' '
    · subst hc
      rw [normalize_space, squeeze_space, ih]
    · rcases rest with _ | ⟨d, rest⟩
      · rw [squeeze_cons hc, normalize_singleton hc]
        rfl
      · by_cases hd : d = ' '
        · subst hd
          rw [normalize_space, squeeze_space] at ih
          rw [normalize_cons_space hc, squeeze_cons_space hc, ih]
        · rw [normalize_cons_cons hc hd, squeeze_cons_cons hc hd, ih]

/-! ### Texts whose spaces are in order -/

theorem isChain_apart_iff {cs : List Char} : cs.IsChain Apart ↔ ¬ [' ', ' '] <:+: cs := by
  rw [List.isChain_iff_forall_rel_of_append_cons_cons]
  constructor
  · rintro h ⟨before, after, hcs⟩
    have hsplit : cs = before ++ ' ' :: ' ' :: after := by
      rw [← hcs, List.append_assoc]
      rfl
    rcases h hsplit with hne | hne <;> exact hne rfl
  · rintro h a b before after hcs
    by_contra hboth
    obtain ⟨rfl, rfl⟩ : a = ' ' ∧ b = ' ' := by simpa [Apart] using hboth
    exact h ⟨before, after, by rw [hcs, List.append_assoc]; rfl⟩

theorem squeeze_of_spaced {cs : List Char} (h : Spaced cs) : squeeze cs = cs := by
  have hhead : cs.dropWhile (· == ' ') = cs := by
    cases cs with
    | nil => rfl
    | cons c rest =>
      refine List.dropWhile_cons_of_neg fun hc => h.head ?_
      rw [List.head?_cons, beq_iff_eq.mp hc]
  have hlast : cs.rdropWhile (· == ' ') = cs := by
    refine List.rdropWhile_eq_self_iff.mpr fun hne hc => h.last ?_
    rw [List.getLast?_eq_getLast_of_ne_nil hne, beq_iff_eq.mp hc]
  rw [squeeze, hhead, hlast, List.destutter_of_isChain _ _ (isChain_apart_iff.mpr h.single)]

end Wayfind.Text
