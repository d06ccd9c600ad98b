/-
What cancelling a token reaches.

The tokens form a forest: every token stands in the row of at most one other, which was
made before it, and whatever stands under a cancelled token is cancelled itself.  That
last fact is the one the rest relies on: an operation that is cancelled takes its races
and their branches along.

It has to survive `under`, the walk that decides what is cancelled together with a token.
The walk has a limit on its turns, so the point is that the limit is never what ends it:
every turn passes a token not passed before, and there are no more tokens than turns.
-/
import Mathlib.Data.List.Nodup
import Mathlib.Data.List.Perm.Subperm
import Mathlib.Logic.Relation
import Wayfind.Activity.Token

namespace Wayfind.Activity.Tokens

variable {ts : Tokens}

/-- How many tokens were made. -/
def count (ts : Tokens) : Nat := ts.states.size

/-- The tokens that stand under a token, cancelled or not. -/
def children (ts : Tokens) (t : Token) : List Token := (ts.states[t]?.map (·.row)).getD []

theorem mem_row {t u : Token} : u ∈ ts.row t ↔ u ∈ ts.children t ∧ ts.isCancelled u = false := by
  simp [row, children]

/-- The tokens form a forest in which cancellation goes downwards. -/
structure Forest (ts : Tokens) : Prop where
  nodup : ∀ t, (ts.children t).Nodup
  /-- What stands under a token was made after it. -/
  after : ∀ t, ∀ u ∈ ts.children t, t < u
  made : ∀ t, ∀ u ∈ ts.children t, u < ts.count
  /-- No token stands under two others. -/
  single : ∀ a b u, u ∈ ts.children a → u ∈ ts.children b → a = b
  /-- What stands under a cancelled token is cancelled. -/
  sealed : ∀ t, ∀ u ∈ ts.children t, ts.isCancelled t = true → ts.isCancelled u = true

theorem lt_count_of_isCancelled {t : Token} (h : ts.isCancelled t = true) : t < ts.count := by
  by_contra hc
  have hnone : ts.states[t]? = none := Array.getElem?_eq_none (Nat.le_of_not_lt hc)
  simp [isCancelled, hnone] at h

theorem children_eq_nil {t : Token} (h : ts.count ≤ t) : ts.children t = [] := by
  rw [children, Array.getElem?_eq_none h]
  rfl

/-! ### Making a token -/

theorem count_make (ts : Tokens) (parent : Option Token) :
    (ts.make parent).2.count = ts.count + 1 := by
  cases parent <;> simp [make, count]

theorem children_make (ts : Tokens) (parent : Option Token) (t : Token) :
    (ts.make parent).2.children t =
      if parent = some t ∧ t < ts.count then ts.children t ++ [ts.count] else ts.children t := by
  have hpush : ∀ (states : Array TokenState) (s : TokenState), s.row = [] →
      ((states.push s)[t]?.map (·.row)).getD [] = (states[t]?.map (·.row)).getD [] := by
    intro states s hs
    rcases Nat.lt_trichotomy t states.size with hlt | heq | hgt
    · simp [Array.getElem?_push, Nat.ne_of_lt hlt]
    · simp [heq, hs]
    · rw [Array.getElem?_eq_none (by simp; omega), Array.getElem?_eq_none (Nat.le_of_lt hgt)]
  cases parent with
  | none =>
    simp only [make, children, reduceCtorEq, false_and, if_false]
    exact hpush _ _ rfl
  | some p =>
    simp only [make, children]
    rw [hpush _ _ rfl, Array.getElem?_modify]
    by_cases hp : p = t
    · subst hp
      by_cases hlt : p < ts.count
      · have hlt' : p < ts.states.size := hlt
        simp [hlt', count]
      · have hnone : ts.states[p]? = none := Array.getElem?_eq_none (Nat.le_of_not_lt hlt)
        simp [hlt, hnone]
    · simp [hp]

theorem isCancelled_make (ts : Tokens) (parent : Option Token) (t : Token) :
    (ts.make parent).2.isCancelled t =
      if t = ts.count then parent.any ts.isCancelled else ts.isCancelled t := by
  have hpush : ∀ (states : Array TokenState) (s : TokenState), states.size = ts.count →
      (states.push s)[t]?.any (·.cancelled) =
        if t = ts.count then s.cancelled else states[t]?.any (·.cancelled) := by
    intro states s hs
    by_cases ht : t = ts.count
    · simp [ht, ← hs]
    · rw [Array.getElem?_push, if_neg (by rwa [hs]), if_neg ht]
  cases parent with
  | none =>
    simp only [make, isCancelled]
    rw [hpush _ _ rfl]
  | some p =>
    simp only [make, isCancelled]
    rw [hpush _ _ (by simp [count]), Array.getElem?_modify]
    by_cases hp : p = t
    · subst hp
      cases ts.states[p]? <;> simp
    · simp [hp]

theorem Forest.make (h : ts.Forest) (parent : Option Token) : (ts.make parent).2.Forest := by
  have hold : ∀ {t u}, u ∈ (ts.make parent).2.children t →
      u ∈ ts.children t ∨ (u = ts.count ∧ parent = some t ∧ t < ts.count) := by
    intro t u hu
    rw [children_make] at hu
    split at hu
    · rename_i hp
      rcases List.mem_append.mp hu with hu | hu
      · exact Or.inl hu
      · exact Or.inr ⟨List.mem_singleton.mp hu, hp⟩
    · exact Or.inl hu
  have hlt : ∀ {t u}, u ∈ ts.children t → u < ts.count := fun hu => h.made _ _ hu
  refine ⟨?_, ?_, ?_, ?_, ?_⟩
  · intro t
    rw [children_make]
    split
    · refine List.nodup_append.mpr ⟨h.nodup t, List.nodup_singleton _, ?_⟩
      intro a ha b hb hab
      have hac := hlt ha
      rw [hab, List.mem_singleton.mp hb] at hac
      exact Nat.lt_irrefl _ hac
    · exact h.nodup t
  · intro t u hu
    rcases hold hu with hu | ⟨rfl, -, ht⟩
    · exact h.after t u hu
    · exact ht
  · intro t u hu
    rw [count_make]
    rcases hold hu with hu | ⟨rfl, -, -⟩
    · exact Nat.lt_succ_of_lt (hlt hu)
    · exact Nat.lt_succ_self _
  · intro a b u ha hb
    rcases hold ha with ha | ⟨rfl, hpa, -⟩ <;> rcases hold hb with hb | ⟨hu, hpb, -⟩
    · exact h.single a b u ha hb
    · exact absurd (hlt ha) (by rw [hu]; exact Nat.lt_irrefl _)
    · exact absurd (hlt hb) (Nat.lt_irrefl _)
    · exact Option.some.inj (hpa.symm.trans hpb)
  · intro t u hu ht
    have htc : t < ts.count := by
      rcases hold hu with hu | ⟨-, -, ht⟩
      · exact Nat.lt_trans (h.after t u hu) (hlt hu)
      · exact ht
    rw [isCancelled_make, if_neg (Nat.ne_of_lt htc)] at ht
    rw [isCancelled_make]
    rcases hold hu with hu | ⟨rfl, hp, -⟩
    · rw [if_neg (Nat.ne_of_lt (hlt hu))]
      exact h.sealed t u hu ht
    · simp [hp, ht]

/-! ### Marking tokens as cancelled -/

@[simp] theorem count_mark (ts : Tokens) (t : Token) : (ts.mark t).count = ts.count := by
  simp [mark, count]

@[simp] theorem children_mark (ts : Tokens) (t u : Token) :
    (ts.mark t).children u = ts.children u := by
  simp only [mark, children, Array.getElem?_modify]
  by_cases htu : t = u
  · subst htu
    cases ts.states[t]? <;> simp
  · simp [htu]

theorem isCancelled_mark (ts : Tokens) (t u : Token) :
    (ts.mark t).isCancelled u = true ↔ (u = t ∧ u < ts.count) ∨ ts.isCancelled u = true := by
  simp only [mark, isCancelled, Array.getElem?_modify]
  by_cases htu : t = u
  · subst htu
    by_cases hlt : t < ts.count
    · have hlt' : t < ts.states.size := hlt
      simp [hlt, hlt']
    · have hnone : ts.states[t]? = none := Array.getElem?_eq_none (Nat.le_of_not_lt hlt)
      simp [hlt, hnone]
  · simp [htu, Ne.symm htu]

/-! ### Letting go of a token -/

theorem mem_leaveRow {t u : Token} {row : List Token} (hn : row.Nodup) (ht : t ∈ row) :
    u ∈ leaveRow t row ↔ u ∈ row ∧ u ≠ t := by
  rcases List.eq_nil_or_concat row with rfl | ⟨init, last, rfl⟩
  · simp at ht
  rw [List.concat_eq_append] at hn ht ⊢
  have hlast : last ∉ init := fun hc =>
    (List.nodup_append.mp hn).2.2 last hc last (List.mem_singleton_self _) rfl
  simp only [leaveRow, List.getLast?_concat, List.dropLast_concat]
  by_cases hlt : last = t
  · subst hlt
    rw [if_pos rfl, List.mem_append, List.mem_singleton]
    constructor
    · intro hu
      exact ⟨Or.inl hu, fun hc => hlast (hc ▸ hu)⟩
    · rintro ⟨hu | hu, hne⟩
      · exact hu
      · exact absurd hu hne
  · rw [if_neg hlt]
    have htinit : t ∈ init := by
      rcases List.mem_append.mp ht with h | h
      · exact h
      · exact absurd (List.mem_singleton.mp h).symm hlt
    simp only [List.mem_map, List.mem_append, List.mem_singleton]
    constructor
    · rintro ⟨v, hv, rfl⟩
      by_cases hvt : v = t
      · rw [if_pos hvt]
        exact ⟨Or.inr rfl, hlt⟩
      · rw [if_neg hvt]
        exact ⟨Or.inl hv, hvt⟩
    · rintro ⟨hu | rfl, hne⟩
      · exact ⟨u, hu, if_neg hne⟩
      · exact ⟨t, htinit, if_pos rfl⟩

theorem nodup_leaveRow {t : Token} {row : List Token} (hn : row.Nodup) :
    (leaveRow t row).Nodup := by
  rcases List.eq_nil_or_concat row with rfl | ⟨init, last, rfl⟩
  · simp [leaveRow]
  rw [List.concat_eq_append] at hn ⊢
  obtain ⟨hinit, -, hdisj⟩ := List.nodup_append.mp hn
  have hlast : last ∉ init := fun hc => hdisj last hc last (List.mem_singleton_self _) rfl
  simp only [leaveRow, List.getLast?_concat, List.dropLast_concat]
  split
  · exact hinit
  · refine (List.nodup_map_iff_inj_on hinit).mpr ?_
    intro a ha b hb hab
    by_cases hat : a = t <;> by_cases hbt : b = t <;> simp only [hat, hbt, if_true, if_false] at hab
    · rw [hat, hbt]
    · exact absurd (hab ▸ hb) hlast
    · exact absurd (hab ▸ ha) hlast
    · exact hab

@[simp] theorem count_discard (ts : Tokens) (t : Token) : (ts.discard t).count = ts.count := by
  simp [discard, count]

@[simp] theorem isCancelled_discard (ts : Tokens) (t u : Token) :
    (ts.discard t).isCancelled u = ts.isCancelled u := by
  simp only [discard, isCancelled, Array.getElem?_map]
  cases ts.states[u]? with
  | none => rfl
  | some s =>
    simp only [Option.map_some, Option.any_some]
    split <;> rfl

/-- A token with nothing left under it only leaves the row it stands in. -/
theorem children_discard {t : Token} (hrow : ts.row t = []) (u : Token) :
    (ts.discard t).children u =
      if t ∈ ts.children u then leaveRow t (ts.children u) else ts.children u := by
  unfold discard children
  rw [hrow, Array.getElem?_map]
  rcases hs : ts.states[u]? with _ | s
  · simp
  · by_cases ht : t ∈ s.row <;> simp [ht]

theorem Forest.mem_children_discard (h : ts.Forest) {t : Token} (hrow : ts.row t = [])
    {a u : Token} : u ∈ (ts.discard t).children a ↔ u ∈ ts.children a ∧ u ≠ t := by
  rw [children_discard hrow]
  by_cases ht : t ∈ ts.children a
  · rw [if_pos ht, mem_leaveRow (h.nodup a) ht]
  · rw [if_neg ht]
    exact ⟨fun hu => ⟨hu, fun hc => ht (hc ▸ hu)⟩, And.left⟩

theorem Forest.discard (h : ts.Forest) {t : Token} (hrow : ts.row t = []) :
    (ts.discard t).Forest := by
  have hsub : ∀ {a u}, u ∈ (ts.discard t).children a → u ∈ ts.children a := fun hu =>
    ((h.mem_children_discard hrow).mp hu).1
  refine ⟨?_, ?_, ?_, ?_, ?_⟩
  · intro a
    rw [children_discard hrow]
    split
    · exact nodup_leaveRow (h.nodup a)
    · exact h.nodup a
  · exact fun a u hu => h.after a u (hsub hu)
  · intro a u hu
    rw [count_discard]
    exact h.made a u (hsub hu)
  · exact fun a b u ha hb => h.single a b u (hsub ha) (hsub hb)
  · intro a u hu ha
    rw [isCancelled_discard] at ha ⊢
    exact h.sealed a u (hsub hu) ha

/-! ### The walk that cancels

`passed` holds the tokens the walk has left behind, `queue` those it has still to look at.
-/

/-- What the walk from a token knows while it runs. -/
structure Walk (ts : Tokens) (root : Token) (passed queue : List Token) : Prop where
  nodup : (passed ++ queue).Nodup
  made : ∀ v ∈ passed ++ queue, v < ts.count
  rootNew : root ∉ passed ++ queue
  /-- Everything found stands under something already passed. -/
  found : ∀ v ∈ passed ++ queue, ∃ a, (a = root ∨ a ∈ passed) ∧ v ∈ ts.row a
  /-- Nothing that stands under what was passed is forgotten. -/
  kept : ∀ a, (a = root ∨ a ∈ passed) → ∀ v ∈ ts.row a, v ∈ passed ++ queue

theorem mem_children_of_mem_row {t u : Token} (h : u ∈ ts.row t) : u ∈ ts.children t :=
  (mem_row.mp h).1

theorem row_nodup (h : ts.Forest) (t : Token) : (ts.row t).Nodup := (h.nodup t).filter _

/-- One turn: the head of the queue is passed after the bare ones of its row, the others of the row
join the queue. -/
theorem Walk.turn (h : ts.Forest) {root t : Token} {passed queue : List Token}
    (w : Walk ts root passed (t :: queue)) {bare others : List Token}
    (hrow : (bare ++ others).Perm (ts.row t)) (hbare : ∀ u ∈ bare, ts.row u = []) :
    Walk ts root (passed ++ (bare ++ [t])) (queue ++ others) := by
  have hmem : ∀ v, v ∈ passed ++ (bare ++ [t]) ++ (queue ++ others) ↔
      v ∈ passed ++ t :: queue ∨ v ∈ ts.row t := by
    intro v
    rw [← hrow.mem_iff]
    simp only [List.mem_append, List.mem_cons, List.not_mem_nil, or_false]
    tauto
  -- The row of the head is new: its members stand under nothing else.
  have hnew : ∀ v ∈ ts.row t, v ∉ passed ++ t :: queue := by
    intro v hv hc
    obtain ⟨a, ha, hva⟩ := w.found v hc
    have hat : a = t := h.single a t v (mem_children_of_mem_row hva) (mem_children_of_mem_row hv)
    rcases ha with rfl | ha
    · exact w.rootNew (by rw [hat]; simp)
    · refine (List.nodup_append.mp w.nodup).2.2 a ha t (by simp) hat
  refine ⟨?_, ?_, ?_, ?_, ?_⟩
  · have hperm : (passed ++ (bare ++ [t]) ++ (queue ++ others)).Perm
        ((passed ++ t :: queue) ++ ts.row t) := by
      refine List.Perm.trans ?_ (List.Perm.append_left _ hrow)
      rw [List.perm_iff_count]
      intro a
      simp only [List.count_append, List.count_cons, List.count_nil]
      omega
    rw [hperm.nodup_iff]
    refine List.nodup_append.mpr ⟨w.nodup, row_nodup h t, ?_⟩
    intro a ha b hb hab
    exact hnew b hb (hab ▸ ha)
  · intro v hv
    rcases (hmem v).mp hv with hv | hv
    · exact w.made v hv
    · exact h.made t v (mem_children_of_mem_row hv)
  · intro hc
    rcases (hmem root).mp hc with hc | hc
    · exact w.rootNew hc
    · -- The root was made before everything the walk finds.
      have hbefore : ∀ v, v ∈ passed ++ t :: queue → root < v := by
        intro v
        induction v using Nat.strongRecOn with
        | _ v ih =>
          intro hv
          obtain ⟨a, ha, hva⟩ := w.found v hv
          have hav := h.after a v (mem_children_of_mem_row hva)
          rcases ha with rfl | ha
          · exact hav
          · exact Nat.lt_trans (ih a hav (List.mem_append_left _ ha)) hav
      have htr := h.after t root (mem_children_of_mem_row hc)
      exact Nat.lt_asymm htr (hbefore t (by simp))
  · intro v hv
    rcases (hmem v).mp hv with hv | hv
    · obtain ⟨a, ha, hva⟩ := w.found v hv
      exact ⟨a, ha.imp_right (List.mem_append_left _), hva⟩
    · exact ⟨t, Or.inr (by simp), hv⟩
  · intro a ha v hv
    rw [hmem]
    rcases ha with ha | ha
    · exact Or.inl (w.kept a (Or.inl ha) v hv)
    · rcases List.mem_append.mp ha with ha | ha
      · exact Or.inl (w.kept a (Or.inr ha) v hv)
      · rcases List.mem_append.mp ha with ha | ha
        · rw [hbare a ha] at hv
          exact absurd hv (by simp)
        · rw [List.mem_singleton.mp ha] at hv
          exact Or.inr hv

/-- There are no more tokens found than made. -/
theorem Walk.length_le {root : Token} {passed queue : List Token}
    (w : Walk ts root passed queue) : (passed ++ queue).length ≤ ts.count := by
  have hsub : passed ++ queue ⊆ List.range ts.count := fun v hv =>
    List.mem_range.mpr (w.made v hv)
  have hle := (List.subperm_of_subset w.nodup hsub).length_le
  rwa [List.length_range] at hle

/-- With enough turns the walk looks at everything it finds. -/
theorem Walk.reached (h : ts.Forest) {root : Token} :
    ∀ (limit : Nat) {passed queue : List Token}, Walk ts root passed queue →
      ts.count ≤ passed.length + limit → Walk ts root (passed ++ ts.reached limit queue) [] := by
  intro limit
  induction limit with
  | zero =>
    intro passed queue w hle
    have hlen := w.length_le
    rw [List.length_append] at hlen
    have hq : queue = [] := List.length_eq_zero_iff.mp (by omega)
    subst hq
    simpa [Tokens.reached] using w
  | succ limit ih =>
    intro passed queue w hle
    cases queue with
    | nil => simpa [Tokens.reached] using w
    | cons t queue =>
      simp only [Tokens.reached, List.partition_eq_filter_filter]
      set bare := (ts.row t).reverse.filter fun u => (ts.row u).isEmpty with hb
      set others := (ts.row t).reverse.filter (not ∘ fun u => (ts.row u).isEmpty) with ho
      have hrow : (bare ++ others).Perm (ts.row t) :=
        (List.filter_append_perm _ _).trans (List.reverse_perm _)
      have hbare : ∀ u ∈ bare, ts.row u = [] := by
        intro u hu
        rw [hb, List.mem_filter] at hu
        exact List.isEmpty_iff.mp hu.2
      have hnext := ih (w.turn h hrow hbare) (by simp only [List.length_append]; simp; omega)
      simpa using hnext

/-- The walk starts at the row of the token that is cancelled. -/
theorem Walk.start (h : ts.Forest) (t : Token) {queue : List Token}
    (hq : queue.Perm (ts.row t)) : Walk ts t [] queue := by
  have hrow : ∀ {v}, v ∈ [] ++ queue → v ∈ ts.row t := fun hv => hq.mem_iff.mp hv
  refine ⟨?_, ?_, ?_, ?_, ?_⟩
  · exact hq.nodup_iff.mpr (row_nodup h t)
  · exact fun v hv => h.made t v (mem_children_of_mem_row (hrow hv))
  · intro hc
    exact Nat.lt_irrefl _ (h.after t t (mem_children_of_mem_row (hrow hc)))
  · exact fun v hv => ⟨t, Or.inl rfl, hrow hv⟩
  · rintro a (rfl | ha) v hv
    · exact hq.mem_iff.mpr hv
    · simp at ha

theorem walk_under (h : ts.Forest) (t : Token) :
    ∃ passed, ts.under t = passed ++ [t] ∧ Walk ts t passed [] := by
  refine ⟨_, rfl, ?_⟩
  have hperm : ((ts.row t).getLast?.toList ++ (ts.row t).dropLast).Perm (ts.row t) := by
    rcases List.eq_nil_or_concat (ts.row t) with he | ⟨init, last, he⟩
    · simp [he]
    · rw [he, List.concat_eq_append]
      simpa using (List.perm_append_singleton last init).symm
  simpa using (Walk.start h t hperm).reached h ts.states.size (by simp [count])

theorem self_mem_under (h : ts.Forest) (t : Token) : t ∈ ts.under t := by
  obtain ⟨passed, hp, -⟩ := walk_under h t
  simp [hp]

/-- What stands under a token that is cancelled is cancelled with it. -/
theorem under_closed (h : ts.Forest) {t a u : Token} (ha : a ∈ ts.under t) (hu : u ∈ ts.row a) :
    u ∈ ts.under t := by
  obtain ⟨passed, hp, w⟩ := walk_under h t
  rw [hp, List.mem_append, List.mem_singleton] at ha ⊢
  have hkept := w.kept a ha.symm u hu
  rw [List.append_nil] at hkept
  exact Or.inl hkept

/-- What is cancelled with a token is the token itself, or stands in a row of something that is
cancelled with it. -/
theorem eq_or_mem_row_of_mem_under (h : ts.Forest) {t u : Token} (hu : u ∈ ts.under t) :
    u = t ∨ ∃ a ∈ ts.under t, u ∈ ts.row a := by
  obtain ⟨passed, hp, w⟩ := walk_under h t
  rw [hp, List.mem_append, List.mem_singleton] at hu
  rcases hu with hu | hu
  · obtain ⟨a, ha, hua⟩ := w.found u (List.mem_append_left _ hu)
    refine Or.inr ⟨a, ?_, hua⟩
    rw [hp, List.mem_append, List.mem_singleton]
    exact ha.symm
  · exact Or.inl hu

end Wayfind.Activity.Tokens
