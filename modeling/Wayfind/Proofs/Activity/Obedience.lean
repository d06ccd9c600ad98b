/-
Tokens that are cancelled with another one.

A token obeys another when it is cancelled, or when it stands somewhere under the other, which is not
cancelled yet.  So it is cancelled as soon as the other is (`Obeys.isCancelled`).  That remains true
while tokens are made and cancelled, and when others are let go of: what stands under those moves up.
-/
import Wayfind.Proofs.Activity.Timeline

namespace Wayfind.Activity

open Relation (ReflTransGen)

namespace Tokens

variable {ts : Tokens} {root t u : Token}

/-- The token was made, and it is cancelled if the other one is. -/
structure Obeys (ts : Tokens) (root t : Token) : Prop where
  made : t < ts.count
  follows : ts.isCancelled t = true ∨
    ts.isCancelled root = false ∧ ReflTransGen (fun a b => b ∈ ts.row a) root t

theorem obeys_self (h : root < ts.count) : ts.Obeys root root := by
  refine ⟨h, ?_⟩
  rcases hc : ts.isCancelled root with _ | _
  · exact Or.inr ⟨rfl, .refl⟩
  · exact Or.inl rfl

theorem Obeys.isCancelled (h : ts.Obeys root t) (hc : ts.isCancelled root = true) :
    ts.isCancelled t = true := by
  refine h.follows.resolve_right fun hlive => ?_
  exact Bool.eq_false_iff.mp hlive.1 hc

/-! ### Making a token -/

theorem mem_row_make {a : Token} (h : u ∈ ts.row a) (parent : Option Token) (hu : u < ts.count) :
    u ∈ (ts.make parent).2.row a := by
  obtain ⟨hchild, hlive⟩ := mem_row.mp h
  refine mem_row.mpr ⟨?_, ?_⟩
  · rw [children_make]
    split
    · exact List.mem_append_left _ hchild
    · exact hchild
  · rw [isCancelled_make, if_neg (Nat.ne_of_lt hu)]
    exact hlive

theorem reaches_make (hf : ts.Forest) (h : ReflTransGen (fun a b => b ∈ ts.row a) root t)
    (parent : Option Token) : ReflTransGen (fun a b => b ∈ (ts.make parent).2.row a) root t :=
  ReflTransGen.mono (fun a _ hb => mem_row_make hb parent (hf.made a _ (mem_children_of_mem_row hb))) _ _ h

theorem Obeys.make (hf : ts.Forest) (h : ts.Obeys root t) (hroot : root < ts.count)
    (parent : Option Token) : (ts.make parent).2.Obeys root t := by
  refine ⟨by rw [count_make]; exact Nat.lt_succ_of_lt h.made, ?_⟩
  rw [isCancelled_make, isCancelled_make, if_neg (Nat.ne_of_lt h.made), if_neg (Nat.ne_of_lt hroot)]
  exact h.follows.imp id (And.imp id fun hreach => reaches_make hf hreach parent)

/-- A token that is made under one that obeys obeys as well. -/
theorem obeys_made {parent : Token} (hf : ts.Forest) (h : ts.Obeys root parent) (hroot : root < ts.count) :
    (ts.make (some parent)).2.Obeys root ts.count := by
  refine ⟨by rw [count_make]; exact Nat.lt_succ_self _, ?_⟩
  have hmade : (ts.make (some parent)).2.isCancelled ts.count = ts.isCancelled parent := by
    rw [isCancelled_make, if_pos rfl]
    rfl
  rw [hmade]
  rcases hc : ts.isCancelled parent with _ | _
  · right
    rw [isCancelled_make, if_neg (Nat.ne_of_lt hroot)]
    rcases h.follows with hparent | ⟨hlive, hreach⟩
    · exact absurd hparent (by rw [hc]; exact Bool.false_ne_true)
    · refine ⟨hlive, (reaches_make hf hreach (some parent)).tail (mem_row.mpr ⟨?_, hmade.trans hc⟩)⟩
      rw [children_make, if_pos ⟨rfl, h.made⟩]
      exact List.mem_append_right _ (List.mem_singleton_self _)
  · exact Or.inl rfl

/-! ### Letting go of a token -/

theorem mem_leaveRow_of_ne {row : List Token} (ht : t ∈ row) (hu : u ∈ row) (hne : u ≠ t) :
    u ∈ leaveRow t row := by
  rcases List.eq_nil_or_concat row with rfl | ⟨init, last, rfl⟩
  · exact absurd hu List.not_mem_nil
  rw [List.concat_eq_append] at ht hu ⊢
  simp only [leaveRow, List.getLast?_concat, List.dropLast_concat]
  have hinit : ∀ {v}, v ∈ init ++ [last] → v ≠ last → v ∈ init := fun hv hlast =>
    (List.mem_append.mp hv).resolve_right fun hc => hlast (List.mem_singleton.mp hc)
  by_cases hlast : last = t
  · rw [if_pos hlast]
    exact hinit hu fun hc => hne (hc.trans hlast)
  · rw [if_neg hlast, List.mem_map]
    by_cases hul : u = last
    · exact ⟨t, hinit ht (Ne.symm hlast), by rw [if_pos rfl, hul]⟩
    · exact ⟨u, hinit hu hul, if_neg hne⟩

theorem mem_children_discard_of_ne {a v : Token} (hne : u ≠ v)
    (h : u ∈ ts.children a ∨ v ∈ ts.children a ∧ u ∈ ts.row v) : u ∈ (ts.discard v).children a := by
  have hchildren : (ts.discard v).children a =
      if v ∈ ts.children a then leaveRow v (ts.children a ++ ts.row v) else ts.children a := by
    unfold discard children
    rw [Array.getElem?_map]
    rcases hs : ts.states[a]? with _ | s
    · simp
    · by_cases hv : v ∈ s.row <;> simp [hv]
  rw [hchildren]
  by_cases hv : v ∈ ts.children a
  · rw [if_pos hv]
    refine mem_leaveRow_of_ne (List.mem_append_left _ hv) ?_ hne
    exact List.mem_append.mpr (h.imp id And.right)
  · rw [if_neg hv]
    exact h.resolve_right fun hc => hv hc.1

/-- What stood in a row still does, and with it what stood under a token of the row that is let go of. -/
theorem mem_row_discard {a v : Token} (hne : u ≠ v) (h : u ∈ ts.row a ∨ v ∈ ts.row a ∧ u ∈ ts.row v) :
    u ∈ (ts.discard v).row a := by
  refine mem_row.mpr ⟨mem_children_discard_of_ne hne ?_, ?_⟩
  · exact h.imp mem_children_of_mem_row (And.imp_left mem_children_of_mem_row)
  · rw [isCancelled_discard]
    exact h.elim (fun hu => (mem_row.mp hu).2) fun hu => (mem_row.mp hu.2).2

theorem Obeys.discard (h : ts.Obeys root t) {v : Token} (ht : t ≠ v) (hroot : root ≠ v) :
    (ts.discard v).Obeys root t := by
  refine ⟨by rw [count_discard]; exact h.made, ?_⟩
  rw [isCancelled_discard, isCancelled_discard]
  refine h.follows.imp id (And.imp id fun hreach => ?_)
  -- whatever stands there is reached without the token, and what stood under it from above it
  have hall : ∀ {u}, ReflTransGen (fun a b => b ∈ ts.row a) root u →
      (u ≠ v → ReflTransGen (fun a b => b ∈ (ts.discard v).row a) root u) ∧
        (u = v → ∃ a, v ∈ ts.row a ∧ ReflTransGen (fun a b => b ∈ (ts.discard v).row a) root a) := by
    intro u hu
    induction hu with
    | refl => exact ⟨fun _ => .refl, fun hc => absurd hc hroot⟩
    | @tail a b _ hb ih =>
      by_cases ha : a = v
      · obtain ⟨above, hv, habove⟩ := ih.2 ha
        refine ⟨fun hne => habove.tail (mem_row_discard hne (Or.inr ⟨hv, ha ▸ hb⟩)), fun _ => ⟨above, hv, habove⟩⟩
      · refine ⟨fun hne => (ih.1 ha).tail (mem_row_discard hne (Or.inl hb)), ?_⟩
        rintro rfl
        exact ⟨a, hb, ih.1 ha⟩
  exact (hall hreach).1 ht

end Tokens

/-! ### Cancelling a token -/

/-- Who obeys goes on to do so, whatever is cancelled. -/
theorem Tokens.Obeys.cancel {S : Signature} {World : Type} {tl : Timeline S World} {root t : Token}
    (hf : tl.tokens.Forest) (h : tl.tokens.Obeys root t) (u : Token) : (tl.cancel u).tokens.Obeys root t := by
  refine ⟨by rw [Timeline.count_cancel]; exact h.made, ?_⟩
  rcases h.follows with hc | ⟨hlive, hreach⟩
  · exact Or.inl ((Timeline.isCancelled_cancel tl u t).mpr (Or.inr hc))
  clear h
  induction hreach with
  | refl =>
    rcases hc : (tl.cancel u).tokens.isCancelled root with _ | _
    · exact Or.inr ⟨rfl, .refl⟩
    · exact Or.inl rfl
  | @tail a b hreach hb ih =>
    have hchild : b ∈ (tl.cancel u).tokens.children a := by
      rw [Timeline.children_cancel]
      exact Tokens.mem_children_of_mem_row hb
    rcases ih with hc | ⟨hlive', hreach'⟩
    · exact Or.inl ((Timeline.cancel_forest hf u).sealed a b hchild hc)
    · rcases hc : (tl.cancel u).tokens.isCancelled b with _ | _
      · exact Or.inr ⟨hlive', hreach'.tail (Tokens.mem_row.mpr ⟨hchild, hc⟩)⟩
      · exact Or.inl rfl

end Wayfind.Activity
