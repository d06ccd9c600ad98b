/-
What the activities of locators hold.

Somebody looks for a handle from a seat: the token of an operation, or of a branch.  Every
race is made under the seat of its owner, which takes from the race's inbox what the
branches post there.  A `Share` is what one activity holds of all this, and `Balanced`
says how the shares fit together.  Four accounts are kept, each with a part of the
timeline: who owns the live handles (`Balanced.ledger`), which messages are still to come
(`Mail`), which tokens stand under which (`Seated`), and what the tokens of an operation
have to say about its end (`Errands`).
-/
import Mathlib.Data.Multiset.Bind
import Mathlib.Tactic.Abel
import Wayfind.Proofs.Activity.Timeline
import Wayfind.Proofs.Page.Ledger
import Wayfind.Page.Side

namespace Wayfind.Keeping

open Activity (Token Inbox Tokens InboxState Request Duty Timeline)

/-- What a reader has still to take from the inbox of a race. -/
structure Due where
  inbox : Inbox
  race : Token
  count : Nat

/-- An operation under way. -/
structure Errand where
  interrupt : Interrupt
  /-- Cancelled when the operation has ended; there is none without a time limit. -/
  ended : Option Token
  signal : Option Token
  /-- When it was started. -/
  began : Nat

/-- The tokens of an operation. -/
def Errand.tokens (e : Errand) : List Token :=
  e.interrupt.token :: e.interrupt.expired :: e.ended.toList

variable {γ : Type}

/-- What one activity holds.  What its handles come to, and what else it has to release, are charges
of a type `γ`. -/
structure Share (γ : Type) where
  /-- The operation it carries out. -/
  errand : Option Errand
  /-- The operation whose deadline it waits for. -/
  timer : Option Errand
  /-- The token it looks under. -/
  seat : Option Token
  /-- The inbox it has still to post to, and the race that reads it. -/
  posts : Option (Inbox × Token)
  due : Option Due
  charges : Multiset γ

namespace Share

/-- Nothing. -/
def nothing : Share γ := ⟨none, none, none, none, none, 0⟩

/-- The tokens it looks under and races with. -/
def tokens (x : Share γ) : Multiset Token := ofOption x.seat + ofOption (x.due.map Due.race)

/-- What fits together within a share. -/
structure Proper (x : Share γ) : Prop where
  /-- A branch was told where to post before it could race itself. -/
  rising : ∀ q ∈ x.posts, ∀ d ∈ x.due, q.1 < d.inbox
  errand : ∀ e ∈ x.errand, x.seat = some e.interrupt.token

/-- Where the tokens of a share stand among the others. -/
structure Seated (tokens : Tokens) (x : Share γ) : Prop where
  /-- Nothing but its race is left under a seat. -/
  row : ∀ t ∈ x.seat, ∀ u ∈ tokens.row t, ∃ d ∈ x.due, d.race = u
  /-- A branch looks under the race it posts to. -/
  posts : ∀ q ∈ x.posts, ∃ t ∈ x.seat, t ∈ tokens.children q.2 ∨ tokens.isCancelled t = true
  due : ∀ d ∈ x.due, tokens.isCancelled d.race = true ∨ ∃ t ∈ x.seat, d.race ∈ tokens.children t

end Share

/-! ### Cancelling, as seen by the tokens -/

/-- One token was cancelled, with what stands under it. -/
structure Cut (before : Tokens) (t : Token) (after : Tokens) : Prop where
  count : after.count = before.count
  children : ∀ a, after.children a = before.children a
  isCancelled : ∀ u, after.isCancelled u = true ↔
    (u ∈ before.under t ∧ u < before.count) ∨ before.isCancelled u = true

theorem cut_cancel {S : Activity.Signature} {World : Type} (tl : Timeline S World) (t : Token) :
    Cut tl.tokens t (tl.cancel t).tokens :=
  ⟨Timeline.count_cancel tl t, Timeline.children_cancel tl t, Timeline.isCancelled_cancel tl t⟩

theorem Cut.row_subset {before after : Tokens} {t : Token} (h : Cut before t after) {a u : Token}
    (hu : u ∈ after.row a) : u ∈ before.row a := by
  rw [Tokens.mem_row, h.children] at hu
  refine Tokens.mem_row.mpr ⟨hu.1, Bool.eq_false_iff.mpr fun hc => ?_⟩
  exact Bool.eq_false_iff.mp hu.2 ((h.isCancelled u).mpr (Or.inr hc))

theorem Share.Seated.cut {before after : Tokens} {t : Token} {x : Share γ} (h : x.Seated before)
    (hc : Cut before t after) : x.Seated after := by
  have hkept : ∀ u, before.isCancelled u = true → after.isCancelled u = true := fun u hu =>
    (hc.isCancelled u).mpr (Or.inr hu)
  refine ⟨fun s hs u hu => h.row s hs u (hc.row_subset hu), ?_, ?_⟩
  · intro q hq
    obtain ⟨s, hs, hplace⟩ := h.posts q hq
    rw [← hc.children] at hplace
    exact ⟨s, hs, hplace.imp_right (hkept s)⟩
  · intro d hd
    refine (h.due d hd).imp (hkept _) ?_
    rintro ⟨s, hs, hplace⟩
    exact ⟨s, hs, by rwa [hc.children]⟩

/-! ### Messages -/

section Letters

variable {M : Type}

/-- The messages in an inbox. -/
def letters (inboxes : Array (InboxState M)) (i : Inbox) : List M :=
  (inboxes[i]?.map (·.messages)).getD []

/-- The inbox is closed. -/
def shut (inboxes : Array (InboxState M)) (i : Inbox) : Bool := inboxes[i]?.any (·.closed)

/-- The charges in messages. -/
def enclosed (f : M → Multiset γ) (ms : List M) : Multiset γ := (ms.map f).sum

/-- The charges in all inboxes. -/
def enclosedAll (f : M → Multiset γ) (inboxes : Array (InboxState M)) : Multiset γ :=
  (inboxes.toList.map fun s => enclosed f s.messages).sum

variable {f : M → Multiset γ} {inboxes : Array (InboxState M)}

theorem exists_inbox {i : Inbox} (h : i < inboxes.size) : ∃ s, inboxes[i]? = some s :=
  ⟨inboxes[i], Array.getElem?_eq_getElem h⟩

theorem letters_of_getElem? {i : Inbox} {s : InboxState M} (h : inboxes[i]? = some s) :
    letters inboxes i = s.messages := by
  simp [letters, h]

theorem sum_map_modify {α : Type} (g : α → Multiset γ) (change : α → α) (l : List α) (i : Nat)
    {s : α} (h : l[i]? = some s) :
    ((l.modify i change).map g).sum + g s = (l.map g).sum + g (change s) := by
  induction l generalizing i with
  | nil => simp at h
  | cons a l ih =>
    cases i with
    | zero =>
      obtain rfl : a = s := by simpa using h
      simp only [List.modify_zero_cons, List.map_cons, List.sum_cons]
      abel
    | succ i =>
      have hrest := ih i (by simpa using h)
      simp only [List.modify_succ_cons, List.map_cons, List.sum_cons, add_assoc, hrest]

theorem enclosedAll_modify (change : InboxState M → InboxState M) {i : Inbox} {s : InboxState M}
    (h : inboxes[i]? = some s) :
    enclosedAll f (inboxes.modify i change) + enclosed f s.messages =
      enclosedAll f inboxes + enclosed f (change s).messages := by
  unfold enclosedAll
  rw [Array.toList_modify]
  exact sum_map_modify _ change _ i (by rwa [Array.getElem?_toList])

theorem enclosedAll_push (s : InboxState M) :
    enclosedAll f (inboxes.push s) = enclosedAll f inboxes + enclosed f s.messages := by
  simp [enclosedAll]

theorem letters_modify (change : InboxState M → InboxState M) {i : Inbox} {s : InboxState M}
    (h : inboxes[i]? = some s) (j : Inbox) :
    letters (inboxes.modify i change) j = if j = i then (change s).messages else letters inboxes j := by
  unfold letters
  rw [Array.getElem?_modify]
  by_cases hij : i = j
  · subst hij
    simp [h]
  · simp [hij, Ne.symm hij]

theorem letters_push (s : InboxState M) (j : Inbox) :
    letters (inboxes.push s) j =
      if j = inboxes.size then s.messages else letters inboxes j := by
  unfold letters
  rw [Array.getElem?_push]
  split <;> simp

theorem shut_modify (change : InboxState M → InboxState M) {i : Inbox} {s : InboxState M}
    (h : inboxes[i]? = some s) (j : Inbox) :
    shut (inboxes.modify i change) j = if j = i then (change s).closed else shut inboxes j := by
  unfold shut
  rw [Array.getElem?_modify]
  by_cases hij : i = j
  · subst hij
    simp [h]
  · simp [hij, Ne.symm hij]

theorem shut_push (s : InboxState M) (j : Inbox) :
    shut (inboxes.push s) j = if j = inboxes.size then s.closed else shut inboxes j := by
  unfold shut
  rw [Array.getElem?_push]
  split <;> simp

end Letters

/-- The inbox and the race of what is due. -/
def Due.place (d : Due) : Inbox × Token := (d.inbox, d.race)

/-- What is still to be taken from an inbox. -/
def owed (i : Inbox) (dues : Multiset Due) : Nat :=
  (dues.map fun d => if d.inbox = i then d.count else 0).sum

@[simp] theorem owed_cons (i : Inbox) (d : Due) (dues : Multiset Due) :
    owed i (d ::ₘ dues) = (if d.inbox = i then d.count else 0) + owed i dues := by
  simp [owed]

/-- The messages that are there and those that will be posted are those that will be taken, unless
the inbox is closed: then it is empty, and nobody reads it. -/
structure Mail {M : Type} (inboxes : Array (InboxState M)) (posts : Multiset (Inbox × Token))
    (dues : Multiset Due) : Prop where
  made : ∀ q ∈ posts + dues.map Due.place, q.1 < inboxes.size
  /-- Only one race reads an inbox. -/
  single : ∀ q ∈ posts + dues.map Due.place, ∀ q' ∈ posts + dues.map Due.place,
    q.1 = q'.1 → q.2 = q'.2
  read : ∀ d ∈ dues, shut inboxes d.inbox = false
  bare : ∀ i, shut inboxes i = true → letters inboxes i = []
  count : ∀ i, shut inboxes i = false →
    (letters inboxes i).length + posts.countP (·.1 = i) = owed i dues

namespace Mail

variable {M : Type} {inboxes : Array (InboxState M)} {posts : Multiset (Inbox × Token)}
  {dues : Multiset Due}

theorem mem_cons_due {d : Due} {q : Inbox × Token} : q ∈ posts + (d ::ₘ dues).map Due.place ↔
    q = d.place ∨ q ∈ posts + dues.map Due.place := by
  rw [Multiset.map_cons, Multiset.add_cons, Multiset.mem_cons]

theorem mem_cons_post {p q : Inbox × Token} : q ∈ (p ::ₘ posts) + dues.map Due.place ↔
    q = p ∨ q ∈ posts + dues.map Due.place := by
  rw [Multiset.cons_add, Multiset.mem_cons]

theorem owed_eq_zero {i : Inbox} (h : ∀ d ∈ dues, d.inbox ≠ i) : owed i dues = 0 := by
  unfold owed
  refine Multiset.sum_eq_zero fun n hn => ?_
  obtain ⟨d, hd, rfl⟩ := Multiset.mem_map.mp hn
  exact if_neg (h d hd)

/-- A new inbox, of which nothing is due yet. -/
theorem openInbox (h : Mail inboxes posts dues) (race : Token) :
    Mail (inboxes.push ⟨[], false⟩) posts (⟨inboxes.size, race, 0⟩ ::ₘ dues) := by
  have hnew : ∀ q ∈ posts + dues.map Due.place, q.1 ≠ inboxes.size := fun q hq =>
    Nat.ne_of_lt (h.made q hq)
  have hold : ∀ {d}, d ∈ dues → d.inbox ≠ inboxes.size := fun hd =>
    hnew _ (Multiset.mem_add.mpr (Or.inr (Multiset.mem_map_of_mem Due.place hd)))
  refine ⟨?_, ?_, ?_, ?_, ?_⟩
  · intro q hq
    rw [Array.size_push]
    rcases mem_cons_due.mp hq with rfl | hq
    · exact Nat.lt_succ_self _
    · exact Nat.lt_succ_of_lt (h.made q hq)
  · intro q hq q' hq' heq
    rcases mem_cons_due.mp hq with rfl | hq <;> rcases mem_cons_due.mp hq' with rfl | hq'
    · rfl
    · exact absurd heq.symm (hnew q' hq')
    · exact absurd heq (hnew q hq)
    · exact h.single q hq q' hq' heq
  · refine Multiset.forall_mem_cons.mpr ⟨?_, fun d hd => ?_⟩
    · rw [shut_push, if_pos rfl]
    · rw [shut_push, if_neg (hold hd)]
      exact h.read d hd
  · intro i hi
    rw [shut_push] at hi
    rw [letters_push]
    split
    · rfl
    · rw [if_neg ‹_›] at hi
      exact h.bare i hi
  · intro i hi
    rw [shut_push] at hi
    rw [letters_push, owed_cons]
    by_cases hlast : i = inboxes.size
    · have hposts : posts.countP (·.1 = i) = 0 := Multiset.countP_eq_zero.mpr fun q hq hc =>
        hnew q (Multiset.mem_add.mpr (Or.inl hq)) (hc.trans hlast)
      have hdues : owed i dues = 0 := owed_eq_zero fun d hd hc => hold hd (hc.trans hlast)
      simp [hlast ▸ hposts, hlast ▸ hdues, hlast]
    · rw [if_neg hlast] at hi ⊢
      rw [if_neg (Ne.symm hlast), zero_add]
      exact h.count i hi

/-- One more branch will post. -/
theorem expect {i : Inbox} {race : Token} {n : Nat} (h : Mail inboxes posts (⟨i, race, n⟩ ::ₘ dues)) :
    Mail inboxes ((i, race) ::ₘ posts) (⟨i, race, n + 1⟩ ::ₘ dues) := by
  have hmem : ∀ q, q ∈ ((i, race) ::ₘ posts) + (⟨i, race, n + 1⟩ ::ₘ dues).map Due.place →
      q ∈ posts + (⟨i, race, n⟩ ::ₘ dues).map Due.place := by
    intro q hq
    simp only [mem_cons_post, mem_cons_due, Due.place] at hq ⊢
    tauto
  refine ⟨fun q hq => h.made q (hmem q hq),
    fun q hq q' hq' => h.single q (hmem q hq) q' (hmem q' hq'), ?_, h.bare, ?_⟩
  · have hread := Multiset.forall_mem_cons.mp h.read
    exact Multiset.forall_mem_cons.mpr hread
  · intro j hj
    have hcount := h.count j hj
    rw [owed_cons] at hcount ⊢
    rw [Multiset.countP_cons]
    by_cases hij : i = j
    · simp only [hij, if_true] at hcount ⊢
      omega
    · simpa [hij] using hcount

/-- A message is taken. -/
theorem take {i : Inbox} {race : Token} {n : Nat} {m : M} {rest : List M}
    (h : Mail inboxes posts (⟨i, race, n + 1⟩ ::ₘ dues)) (hm : letters inboxes i = m :: rest) :
    Mail (inboxes.modify i fun s => { s with messages := rest }) posts (⟨i, race, n⟩ ::ₘ dues) := by
  obtain ⟨s, hs⟩ := exists_inbox (h.made (i, race) (mem_cons_due.mpr (Or.inl rfl)))
  have hshut : ∀ j, shut (inboxes.modify i fun s => { s with messages := rest }) j =
      shut inboxes j := by
    intro j
    rw [shut_modify _ hs]
    split
    · simp [shut, ‹j = i›, hs]
    · rfl
  refine ⟨?_, ?_, ?_, ?_, ?_⟩
  · intro q hq
    rw [Array.size_modify]
    exact h.made q (mem_cons_due.mpr (mem_cons_due (d := ⟨i, race, n⟩).mp hq))
  · intro q hq q' hq'
    exact h.single q (mem_cons_due.mpr (mem_cons_due (d := ⟨i, race, n⟩).mp hq)) q'
      (mem_cons_due.mpr (mem_cons_due (d := ⟨i, race, n⟩).mp hq'))
  · have hread := Multiset.forall_mem_cons.mp h.read
    simp only [hshut]
    exact Multiset.forall_mem_cons.mpr hread
  · intro j hj
    rw [hshut] at hj
    rw [letters_modify _ hs]
    split
    · subst ‹j = i›
      exact absurd (hm.symm.trans (h.bare j hj)) (by simp)
    · exact h.bare j hj
  · intro j hj
    rw [hshut] at hj
    have hcount := h.count j hj
    rw [letters_modify _ hs]
    rw [owed_cons] at hcount ⊢
    by_cases hij : j = i
    · subst hij
      rw [hm] at hcount
      simp only [List.length_cons, if_true] at hcount ⊢
      omega
    · simpa [hij, Ne.symm hij] using hcount

/-- A branch posts to an inbox that is open. -/
theorem post {i : Inbox} {race : Token} (h : Mail inboxes ((i, race) ::ₘ posts) dues)
    (hopen : shut inboxes i = false) (m : M) :
    Mail (inboxes.modify i fun s => { s with messages := s.messages ++ [m] }) posts dues := by
  obtain ⟨s, hs⟩ := exists_inbox (h.made (i, race) (mem_cons_post.mpr (Or.inl rfl)))
  have hshut : ∀ j, shut (inboxes.modify i fun s => { s with messages := s.messages ++ [m] }) j =
      shut inboxes j := by
    intro j
    rw [shut_modify _ hs]
    split
    · simp [shut, ‹j = i›, hs]
    · rfl
  refine ⟨?_, ?_, ?_, ?_, ?_⟩
  · intro q hq
    rw [Array.size_modify]
    exact h.made q (mem_cons_post.mpr (Or.inr hq))
  · exact fun q hq q' hq' =>
      h.single q (mem_cons_post.mpr (Or.inr hq)) q' (mem_cons_post.mpr (Or.inr hq'))
  · simp only [hshut]
    exact h.read
  · intro j hj
    rw [hshut] at hj
    have hne : j ≠ i := fun hc => by
      rw [hc, hopen] at hj
      exact absurd hj Bool.false_ne_true
    rw [letters_modify _ hs, if_neg hne]
    exact h.bare j hj
  · intro j hj
    rw [hshut] at hj
    have hcount := h.count j hj
    rw [letters_modify _ hs]
    rw [Multiset.countP_cons] at hcount
    by_cases hij : j = i
    · subst hij
      rw [letters_of_getElem? hs] at hcount
      simp only [if_true, List.length_append, List.length_singleton] at hcount ⊢
      omega
    · simpa [hij, Ne.symm hij] using hcount

/-- A branch that finds its inbox closed does not post. -/
theorem reject {q : Inbox × Token} (h : Mail inboxes (q ::ₘ posts) dues)
    (hclosed : shut inboxes q.1 = true) : Mail inboxes posts dues := by
  refine ⟨fun q' hq' => h.made q' (mem_cons_post.mpr (Or.inr hq')), fun q' hq' q'' hq'' =>
    h.single q' (mem_cons_post.mpr (Or.inr hq')) q'' (mem_cons_post.mpr (Or.inr hq'')), h.read,
    h.bare, ?_⟩
  intro i hi
  have hne : q.1 ≠ i := fun hc => by
    rw [← hc, hclosed] at hi
    exact absurd hi (by simp)
  have hcount := h.count i hi
  rwa [Multiset.countP_cons, if_neg hne, add_zero] at hcount

/-- Who has taken everything is no reader any more. -/
theorem settle {i : Inbox} {race : Token} (h : Mail inboxes posts (⟨i, race, 0⟩ ::ₘ dues)) :
    Mail inboxes posts dues := by
  refine ⟨fun q hq => h.made q (mem_cons_due.mpr (Or.inr hq)), fun q hq q' hq' =>
    h.single q (mem_cons_due.mpr (Or.inr hq)) q' (mem_cons_due.mpr (Or.inr hq')),
    (Multiset.forall_mem_cons.mp h.read).2, h.bare, ?_⟩
  intro j hj
  have hcount := h.count j hj
  rw [owed_cons] at hcount
  simpa using hcount

/-- The only reader of an inbox closes it. -/
theorem close {d : Due} (h : Mail inboxes posts (d ::ₘ dues)) (halone : ∀ d' ∈ dues, d'.inbox ≠ d.inbox) :
    Mail (inboxes.modify d.inbox fun _ => ⟨[], true⟩) posts dues := by
  have hmade : d.inbox < inboxes.size := h.made d.place (mem_cons_due.mpr (Or.inl rfl))
  obtain ⟨s, hs⟩ := exists_inbox hmade
  refine ⟨?_, fun q hq q' hq' =>
    h.single q (mem_cons_due.mpr (Or.inr hq)) q' (mem_cons_due.mpr (Or.inr hq')), ?_, ?_, ?_⟩
  · intro q hq
    rw [Array.size_modify]
    exact h.made q (mem_cons_due.mpr (Or.inr hq))
  · intro d' hd'
    rw [shut_modify _ hs, if_neg (halone d' hd')]
    exact h.read d' (Multiset.mem_cons_of_mem hd')
  · intro j hj
    rw [shut_modify _ hs] at hj
    rw [letters_modify _ hs]
    split
    · rfl
    · rw [if_neg ‹_›] at hj
      exact h.bare j hj
  · intro j hj
    rw [shut_modify _ hs] at hj
    have hne : j ≠ d.inbox := fun hc => by
      rw [if_pos hc] at hj
      exact absurd hj (by simp)
    rw [if_neg hne] at hj
    have hcount := h.count j hj
    rw [owed_cons, if_neg (Ne.symm hne), zero_add] at hcount
    rwa [letters_modify _ hs, if_neg hne]

end Mail

end Wayfind.Keeping
