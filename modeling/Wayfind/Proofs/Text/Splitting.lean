/-
Lists split at their separators.

A separator in the middle cuts a list in two (`splitAt?_append_cons`), so what a list is split into can
be said segment by segment (`segments_induction`).  The separators are kept in order, and what can be
said of each element by itself is the same of the segments as of the whole list.
-/
import Mathlib.Data.List.Basic
import Wayfind.Text.Split

namespace Wayfind.Text

variable {α β γ : Type} {separator? : α → Option β}

/-! ### Lists split at their separators -/

theorem splitAt?_cons_none {a : α} (h : separator? a = none) (rest : List α) :
    splitAt? separator? (a :: rest) =
      (a :: (splitAt? separator? rest).1, (splitAt? separator? rest).2) := by
  simp only [splitAt?, h]

theorem splitAt?_cons_some {a : α} {b : β} (h : separator? a = some b) (rest : List α) :
    splitAt? separator? (a :: rest) =
      ([], (b, (splitAt? separator? rest).1) :: (splitAt? separator? rest).2) := by
  simp only [splitAt?, h]

theorem splitAt?_append {seg : List α} (h : ∀ a ∈ seg, separator? a = none) (rest : List α) :
    splitAt? separator? (seg ++ rest) =
      (seg ++ (splitAt? separator? rest).1, (splitAt? separator? rest).2) := by
  induction seg with
  | nil => rfl
  | cons a seg ih =>
    rw [List.cons_append, splitAt?_cons_none (h a List.mem_cons_self),
      ih fun b hb => h b (List.mem_cons_of_mem a hb)]
    rfl

/-- What the elements between the separators give is what all give, when separators give nothing. -/
theorem filterMap_splitAt? {f : α → Option γ} (h : ∀ a b, separator? a = some b → f a = none)
    (as : List α) :
    (splitAt? separator? as).1.filterMap f ++
        (splitAt? separator? as).2.flatMap (fun s => s.2.filterMap f) = as.filterMap f := by
  induction as with
  | nil => rfl
  | cons a as ih =>
    cases hs : separator? a with
    | some b =>
      rw [splitAt?_cons_some hs, List.flatMap_cons, ih, List.filterMap_cons_none (h a b hs)]
      rfl
    | none =>
      rw [splitAt?_cons_none hs]
      simp only [List.filterMap_cons]
      cases f a with
      | none => exact ih
      | some c => rw [List.cons_append, ih]

/-- The separators are kept, in order. -/
theorem separators_splitAt? (as : List α) :
    (splitAt? separator? as).2.map (·.1) = as.filterMap separator? := by
  induction as with
  | nil => rfl
  | cons a as ih =>
    cases hs : separator? a with
    | some b => rw [splitAt?_cons_some hs, List.map_cons, ih, List.filterMap_cons_some hs]
    | none => rw [splitAt?_cons_none hs, List.filterMap_cons_none hs, ih]

/-- A property of all elements is one of all elements of each segment. -/
theorem forall_splitAt? (separator? : α → Option β) {P : α → Prop} {as : List α}
    (h : ∀ a ∈ as, P a) :
    (∀ a ∈ (splitAt? separator? as).1, P a) ∧
      ∀ s ∈ (splitAt? separator? as).2, ∀ a ∈ s.2, P a := by
  induction as with
  | nil => simp [splitAt?]
  | cons a as ih =>
    rw [List.forall_mem_cons] at h
    obtain ⟨hfirst, hothers⟩ := ih h.2
    cases hs : separator? a with
    | some b =>
      rw [splitAt?_cons_some hs]
      exact ⟨by simp, List.forall_mem_cons.mpr ⟨hfirst, hothers⟩⟩
    | none =>
      rw [splitAt?_cons_none hs]
      exact ⟨List.forall_mem_cons.mpr ⟨h.1, hfirst⟩, hothers⟩

/-! ### Segment by segment -/

/-- The segments of a list between its separators. -/
def segmentsAt (separator? : α → Option β) (as : List α) : List (List α) :=
  (splitAt? separator? as).1 :: (splitAt? separator? as).2.map (·.2)

/-- A separator in the middle cuts a list in two. -/
theorem splitAt?_append_cons {a : α} {b : β} (h : separator? a = some b) (as rest : List α) :
    splitAt? separator? (as ++ a :: rest) =
      ((splitAt? separator? as).1,
        (splitAt? separator? as).2 ++ (b, (splitAt? separator? rest).1) :: (splitAt? separator? rest).2) := by
  induction as with
  | nil => exact splitAt?_cons_some h rest
  | cons x as ih =>
    rw [List.cons_append]
    cases hx : separator? x with
    | some y => rw [splitAt?_cons_some hx, splitAt?_cons_some hx, ih]; rfl
    | none => rw [splitAt?_cons_none hx, splitAt?_cons_none hx, ih]

theorem segmentsAt_append_cons {a : α} {b : β} (h : separator? a = some b) (as rest : List α) :
    segmentsAt separator? (as ++ a :: rest) = segmentsAt separator? as ++ segmentsAt separator? rest := by
  unfold segmentsAt
  rw [splitAt?_append_cons h]
  simp

/-- A list is one segment, or is cut at its first separator. -/
theorem segments_cases (separator? : α → Option β) (as : List α) :
    (∀ a ∈ as, separator? a = none) ∨
      ∃ first a b rest, as = first ++ a :: rest ∧ (∀ x ∈ first, separator? x = none) ∧
        separator? a = some b := by
  induction as with
  | nil => exact .inl nofun
  | cons x as ih =>
    cases hx : separator? x with
    | some b => exact .inr ⟨[], x, b, as, rfl, nofun, hx⟩
    | none =>
      rcases ih with hnone | ⟨first, a, b, rest, rfl, hfirst, ha⟩
      · exact .inl (List.forall_mem_cons.mpr ⟨hx, hnone⟩)
      · exact .inr ⟨x :: first, a, b, rest, rfl, List.forall_mem_cons.mpr ⟨hx, hfirst⟩, ha⟩

/-- Induction over the segments of a list. -/
theorem segments_induction (separator? : α → Option β) {P : List α → Prop}
    (last : ∀ as, (∀ a ∈ as, separator? a = none) → P as)
    (more : ∀ first a b rest, (∀ x ∈ first, separator? x = none) → separator? a = some b → P rest →
      P (first ++ a :: rest)) (as : List α) : P as := by
  induction hn : as.length using Nat.strongRecOn generalizing as with
  | _ n ih =>
    rcases segments_cases separator? as with hnone | ⟨first, a, b, rest, rfl, hfirst, ha⟩
    · exact last as hnone
    · refine more first a b rest hfirst ha (ih rest.length ?_ rest rfl)
      rw [← hn, List.length_append, List.length_cons]
      omega

theorem segmentsAt_of_none {as : List α} (h : ∀ a ∈ as, separator? a = none) :
    segmentsAt separator? as = [as] := by
  have hsplit := splitAt?_append h []
  rw [List.append_nil] at hsplit
  rw [segmentsAt, hsplit]
  simp [splitAt?]

end Wayfind.Text
