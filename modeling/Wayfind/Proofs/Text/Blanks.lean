/-
Blanks, and texts without the blanks around them.

Trimming takes away blanks and nothing else (`exists_trim`), and what it leaves is empty or has no blank
at its ends (`trimmed_trim`).  Of two texts side by side, the blanks between them stay when the two are
trimmed together and are lost when each is trimmed by itself; it is the same just when there are
none (`exists_gap`).
-/
import Mathlib
import Wayfind.Text.Blank
import Wayfind.Text.Word

namespace Wayfind.Text

variable {cs : List Char}

/-! ### Blanks and words -/

/-- The code points of the blanks. -/
def blankCodes : List Nat :=
  [0x9, 0xA, 0xB, 0xC, 0xD, 0x20, 0x85, 0xA0, 0x1680, 0x2000, 0x2001, 0x2002, 0x2003, 0x2004, 0x2005,
    0x2006, 0x2007, 0x2008, 0x2009, 0x200A, 0x2028, 0x2029, 0x202F, 0x205F, 0x3000]

theorem toNat_mem_blankCodes {c : Char} (h : isBlank c = true) : c.toNat ∈ blankCodes := by
  simp only [isBlank, Bool.or_eq_true, Bool.and_eq_true, decide_eq_true_eq, beq_iff_eq] at h
  simp only [blankCodes, List.mem_cons, List.not_mem_nil, or_false]
  omega

theorem isWord_eq (c : Char) :
    isWord c = if c.toNat < 0x80 then c.isAlphanum || c == '_'
      else wordRanges.toList.any fun (first, last) => first ≤ c.toNat && c.toNat ≤ last := by
  rw [isWord, Array.any_toList]

/-- No blank stands in a word. -/
theorem isWord_of_isBlank {c : Char} (h : isBlank c = true) : isWord c = false := by
  have hcodes : ∀ n ∈ blankCodes, isWord (Char.ofNat n) = false := by
    simp only [isWord_eq]
    decide +kernel
  rw [← Char.ofNat_toNat c]
  exact hcodes _ (toNat_mem_blankCodes h)

theorem isBlank_of_isWord {c : Char} (h : isWord c = true) : isBlank c = false := by
  by_contra hblank
  rw [isWord_of_isBlank (by simpa using hblank)] at h
  exact Bool.false_ne_true h

/-! ### Trimming -/

/-- There is nothing but blanks. -/
def Blank (cs : List Char) : Prop := ∀ c ∈ cs, isBlank c = true

theorem blank_nil : Blank [] := nofun

theorem Blank.append {rest : List Char} (h : Blank cs) (hrest : Blank rest) : Blank (cs ++ rest) :=
  List.forall_mem_append.mpr ⟨h, hrest⟩

instance (cs : List Char) : Decidable (Blank cs) := decidable_of_iff (cs.all isBlank = true) List.all_eq_true

/-- A text with something in it and no blanks around it. -/
structure Trimmed (cs : List Char) : Prop where
  nonempty : cs ≠ []
  first : ∀ c ∈ cs.head?, isBlank c = false
  last : ∀ c ∈ cs.getLast?, isBlank c = false

theorem head?_trimStart {c : Char} (h : c ∈ (trimStart cs).head?) :
    isBlank c = false := by
  have hnot := List.head?_dropWhile_not isBlank cs
  rw [show cs.dropWhile isBlank = trimStart cs from rfl, Option.mem_def.mp h] at hnot
  exact hnot

theorem getLast?_trimEnd {c : Char} (h : c ∈ (trimEnd cs).getLast?) :
    isBlank c = false := by
  rw [trimEnd, List.getLast?_reverse] at h
  exact head?_trimStart h

theorem trimEnd_prefix (cs : List Char) : trimEnd cs <+: cs := by
  have hsuffix : (cs.reverse.dropWhile isBlank) <:+ cs.reverse := List.dropWhile_suffix _
  simpa only [trimEnd, List.reverse_reverse] using List.reverse_prefix.mpr hsuffix

/-- What is left of a text between the blanks around it. -/
theorem trimmed_trim (h : trim cs ≠ []) : Trimmed (trim cs) where
  nonempty := h
  first := by
    intro c hc
    obtain ⟨rest, hrest⟩ := trimEnd_prefix (trimStart cs)
    refine head?_trimStart (show c ∈ (trimStart cs).head? from ?_)
    rw [← hrest, List.head?_append]
    exact Option.mem_def.mpr (by rw [show trimEnd (trimStart cs) = trim cs from rfl, hc]; rfl)
  last := fun c hc => getLast?_trimEnd hc

/-- Blanks before what is none are trimmed away. -/
theorem trimStart_append {blanks : List Char} (hblanks : Blank blanks) {c : Char}
    (hc : isBlank c = false) (rest : List Char) : trimStart (blanks ++ c :: rest) = c :: rest := by
  rw [trimStart, List.dropWhile_append_of_pos hblanks,
    List.dropWhile_cons_of_neg (by rw [hc]; exact Bool.false_ne_true)]

/-- A text is its blanks at the start and the trimmed text. -/
theorem exists_trimStart (cs : List Char) : ∃ blanks, Blank blanks ∧ cs = blanks ++ trimStart cs :=
  ⟨cs.takeWhile isBlank, fun _ hc => List.mem_takeWhile_imp hc, List.takeWhile_append_dropWhile.symm⟩

/-- Around what trimming leaves there were only blanks. -/
theorem exists_trim (cs : List Char) :
    ∃ before after, Blank before ∧ Blank after ∧ cs = before ++ (trim cs ++ after) := by
  have hstart : cs = cs.takeWhile isBlank ++ trimStart cs := List.takeWhile_append_dropWhile.symm
  have hend : trimStart cs = trim cs ++ ((trimStart cs).reverse.takeWhile isBlank).reverse := by
    have hback := List.takeWhile_append_dropWhile (p := isBlank) (l := (trimStart cs).reverse)
    have hturned := congrArg List.reverse hback
    rw [List.reverse_append, List.reverse_reverse] at hturned
    exact hturned.symm
  refine ⟨_, _, fun c hc => List.mem_takeWhile_imp hc, fun c hc => ?_, hstart.trans (congrArg _ hend)⟩
  exact List.mem_takeWhile_imp (List.mem_reverse.mp hc)

theorem Blank.trim (h : Blank cs) : Text.trim cs = [] := by
  rw [Text.trim, trimStart, List.dropWhile_eq_nil_iff.mpr h]
  rfl

theorem trim_eq_nil_iff : trim cs = [] ↔ Blank cs := by
  refine ⟨fun h => ?_, Blank.trim⟩
  obtain ⟨before, after, hbefore, hafter, hcs⟩ := exists_trim cs
  rw [h, List.nil_append] at hcs
  exact hcs ▸ hbefore.append hafter

/-- Blanks around a text without blanks at its ends are what trimming takes away. -/
theorem Trimmed.trim_append {before mid after : List Char} (h : Trimmed mid) (hbefore : Blank before)
    (hafter : Blank after) : trim (before ++ (mid ++ after)) = mid := by
  have hstart : trimStart (before ++ (mid ++ after)) = mid ++ after := by
    obtain ⟨c, rest, rfl⟩ := List.exists_cons_of_ne_nil h.nonempty
    have hfirst : isBlank c = false := h.first c rfl
    rw [trimStart, List.dropWhile_append_of_pos hbefore, List.cons_append,
      List.dropWhile_cons_of_neg (by rw [hfirst]; exact Bool.false_ne_true)]
  have hback : ∀ c ∈ after.reverse, isBlank c = true := fun c hc => hafter c (List.mem_reverse.mp hc)
  obtain ⟨init, c, rfl⟩ := (List.eq_nil_or_concat mid).resolve_left h.nonempty
  have hlast : isBlank c = false := h.last c (by rw [List.concat_eq_append, List.getLast?_concat]; rfl)
  rw [trim, hstart, trimEnd, List.reverse_append, List.dropWhile_append_of_pos hback,
    List.concat_eq_append, List.reverse_concat,
    List.dropWhile_cons_of_neg (by rw [hlast]; exact Bool.false_ne_true), List.reverse_cons,
    List.reverse_reverse]

theorem Trimmed.trim (h : Trimmed cs) : Text.trim cs = cs := by
  have hnone := h.trim_append blank_nil blank_nil
  rwa [List.append_nil, List.nil_append] at hnone

theorem Trimmed.append {rest : List Char} (h : Trimmed cs) (hrest : Trimmed rest) : Trimmed (cs ++ rest) where
  nonempty hnil := h.nonempty (List.append_eq_nil_iff.mp hnil).1
  first := by
    rw [List.head?_append_of_ne_nil _ h.nonempty]
    exact h.first
  last := by
    rw [List.getLast?_append_of_ne_nil _ hrest.nonempty]
    exact hrest.last

/-! ### Texts side by side -/

/-- The text does not start with a blank. -/
def StartsSolid (cs : List Char) : Prop := ∀ c ∈ cs.head?, isBlank c = false

/-- The text does not end with a blank. -/
def EndsSolid (cs : List Char) : Prop := ∀ c ∈ cs.getLast?, isBlank c = false

theorem startsSolid_append {before mid : List Char} (hbefore : Blank before) (hmid : Trimmed mid)
    (rest : List Char) :
    StartsSolid (before ++ (mid ++ rest)) ↔ before = [] := by
  obtain ⟨c, tail, rfl⟩ := List.exists_cons_of_ne_nil hmid.nonempty
  cases before with
  | nil => exact ⟨fun _ => rfl, fun _ => hmid.first⟩
  | cons b before =>
    refine ⟨fun h => ?_, nofun⟩
    exact absurd ((hbefore b List.mem_cons_self).symm.trans (h b rfl)) nofun

theorem endsSolid_append {mid after : List Char} (hmid : Trimmed mid) (hafter : Blank after) (rest : List Char) :
    EndsSolid (rest ++ (mid ++ after)) ↔ after = [] := by
  rcases List.eq_nil_or_concat after with rfl | ⟨init, b, rfl⟩
  · refine ⟨fun _ => rfl, fun _ c hc => hmid.last c ?_⟩
    rwa [List.append_nil, List.getLast?_append_of_ne_nil _ hmid.nonempty] at hc
  · refine ⟨fun h => ?_, fun h => absurd h (by simp)⟩
    have hlast : b ∈ (rest ++ (mid ++ init.concat b)).getLast? := by simp
    exact absurd ((hafter b (by simp)).symm.trans (h b hlast)) nofun

/-- A blank text next to another one does not matter when both are trimmed. -/
theorem trim_append_of_blank {rest : List Char} :
    (Blank cs → trim (cs ++ rest) = trim rest) ∧ (Blank rest → trim (cs ++ rest) = trim cs) := by
  constructor <;> intro hblank
  · by_cases hrest : trim rest = []
    · rw [hrest, (hblank.append (trim_eq_nil_iff.mp hrest)).trim]
    · obtain ⟨before, after, hbefore, hafter, hsplit⟩ := exists_trim rest
      conv_lhs => rw [hsplit, ← List.append_assoc]
      exact (trimmed_trim hrest).trim_append (hblank.append hbefore) hafter
  · by_cases hcs : trim cs = []
    · rw [hcs, ((trim_eq_nil_iff.mp hcs).append hblank).trim]
    · obtain ⟨before, after, hbefore, hafter, hsplit⟩ := exists_trim cs
      conv_lhs => rw [hsplit, List.append_assoc, List.append_assoc]
      exact (trimmed_trim hcs).trim_append hbefore (hafter.append hblank)

theorem trim_cons_blank {b : Char} (hb : isBlank b = true) (cs : List Char) : trim (b :: cs) = trim cs := by
  have hblank : Blank [b] := List.forall_mem_singleton.mpr hb
  exact trim_append_of_blank.1 hblank

theorem trim_concat_blank {b : Char} (hb : isBlank b = true) (cs : List Char) : trim (cs ++ [b]) = trim cs :=
  trim_append_of_blank.2 (List.forall_mem_singleton.mpr hb)

/-- Of two texts that are not blank, what stands between the one and the other stays when both are
trimmed together. -/
theorem exists_gap {rest : List Char} (hcs : trim cs ≠ []) (hrest : trim rest ≠ []) :
    ∃ gap, trim (cs ++ rest) = trim cs ++ (gap ++ trim rest) ∧
      (gap = [] ↔ EndsSolid cs ∧ StartsSolid rest) := by
  obtain ⟨before, inner, hbefore, hinner, hfirst⟩ := exists_trim cs
  obtain ⟨inner', after, hinner', hafter, hsecond⟩ := exists_trim rest
  have hone := trimmed_trim hcs
  have hother := trimmed_trim hrest
  refine ⟨inner ++ inner', ?_, ?_⟩
  · have hboth : Trimmed (trim cs ++ (inner ++ inner' ++ trim rest)) := by
      refine ⟨fun h => hcs (List.append_eq_nil_iff.mp h).1, fun c hc => hone.first c ?_,
        fun c hc => hother.last c ?_⟩
      · rwa [List.head?_append_of_ne_nil _ hcs] at hc
      · rwa [List.getLast?_append_of_ne_nil _ (by simp [hrest]), List.getLast?_append_of_ne_nil _ hrest] at hc
    have hsplit : cs ++ rest = before ++ ((trim cs ++ (inner ++ inner' ++ trim rest)) ++ after) := by
      conv_lhs => rw [hfirst, hsecond]
      simp only [List.append_assoc]
    rw [hsplit]
    exact hboth.trim_append hbefore hafter
  · have hends := endsSolid_append hone hinner before
    have hstarts := startsSolid_append hinner' hother after
    rw [← hfirst] at hends
    rw [← hsecond] at hstarts
    rw [hends, hstarts, List.append_eq_nil_iff]

end Wayfind.Text
