/-
What there is when nobody can go on.

A reader waits for a branch, and a branch that races waits for branches of its own, whose
inboxes are newer.  So a chain of activities that wait for each other ends
(`Balanced.not_ascending`), and who stands at its end waits for something else.  Three facts
follow: nobody sits under a cancelled token (`Balanced.seat_live`), which is why time never
passes over a deadline; whom nothing could interrupt does not wait for a race
(`Balanced.due_eq_none`), which is why a cancelled operation comes to its end; and when only
background activities are left, none of them has still to post (`Balanced.posts_empty`),
which is why no handle is left with them.
-/
import Wayfind.Proofs.Activity.Crowd
import Wayfind.Proofs.Keeping.Operating

namespace Wayfind.Keeping

open Activity (Token Inbox Tokens Request Duty Role Timeline Stuck)

variable {B : PageSide} {K : Activity.Backend B.signature} {A : Account K} {made : Nat}
  {base : Multiset A.Charge} {tl : Timeline B.signature K.World} {shares : Multiset (Share A.Charge)}
  {x : Share A.Charge} {γ : Type} {bags : Multiset (Share γ)}

/-- Nothing can be done with the share: it was handed on to a caller, or whoever has it waits for
something that has not happened. -/
def Still (K : Activity.Backend B.signature) (role : Role → Prop)
    (tl : Timeline B.signature K.World) (x : Share γ) : Prop :=
  (∃ charges, x = .ofCharges charges) ∨ ∃ which r watched, role which ∧
    x.Parked (B := B) which r watched ∧ Stuck K tl r watched

theorem letters_of_stuck {inbox : Inbox} {watched : List Token}
    (h : Stuck K tl (.take inbox) watched) : letters (boxes tl) inbox = [] := by
  have hp := h.2
  simp only [Timeline.perform] at hp
  split at hp
  · exact absurd hp (by simp)
  · assumption

theorem le_owed {d : Due} {dues : Multiset Due} (h : d ∈ dues) : d.count ≤ owed d.inbox dues := by
  obtain ⟨rest, rfl⟩ := Multiset.exists_cons_of_mem h
  rw [owed_cons, if_pos rfl]
  exact Nat.le_add_right _ _

theorem exists_due {i : Inbox} {dues : Multiset Due} (h : 0 < owed i dues) :
    ∃ d ∈ dues, d.inbox = i := by
  by_contra hnone
  push Not at hnone
  have hzero : owed i dues = 0 := by
    unfold owed
    refine Multiset.sum_eq_zero fun n hn => ?_
    obtain ⟨d, hd, rfl⟩ := Multiset.mem_map.mp hn
    exact if_neg (hnone d hd)
  omega

theorem mem_postsOf {q : Inbox × Token} : q ∈ postsOf bags ↔ ∃ x ∈ bags, x.posts = some q := by
  simp [postsOf]

theorem mem_duesOf {d : Due} : d ∈ duesOf bags ↔ ∃ x ∈ bags, x.due = some d := by
  simp [duesOf]

theorem mem_errandsOf {e : Errand} : e ∈ errandsOf bags ↔ ∃ x ∈ bags, x.errand = some e := by
  simp [errandsOf]

theorem mem_timersOf {e : Errand} : e ∈ timersOf bags ↔ ∃ x ∈ bags, x.timer = some e := by
  simp [timersOf]

namespace Balanced

variable {role : Role → Prop}

/-- Whoever waits for a race waits for somebody who has still to post to it. -/
theorem exists_post (hb : Balanced A made base tl shares) (hx : x ∈ shares) {d : Due} (hd : x.due = some d)
    (hpos : 0 < d.count) (hempty : letters (boxes tl) d.inbox = []) :
    ∃ y ∈ shares, y.posts = some (d.inbox, d.race) := by
  have hdue : d ∈ duesOf shares := mem_duesOf.mpr ⟨x, hx, hd⟩
  have hcount := hb.mail.count d.inbox (hb.mail.read d hdue)
  rw [hempty, List.length_nil, zero_add] at hcount
  have hposts : 0 < (postsOf shares).countP (·.1 = d.inbox) :=
    hcount ▸ Nat.lt_of_lt_of_le hpos (le_owed hdue)
  obtain ⟨q, hq, hinbox⟩ := Multiset.countP_pos.mp hposts
  have hsame : q.2 = d.race := hb.mail.single q (Multiset.mem_add.mpr (Or.inl hq)) d.place
    (Multiset.mem_add.mpr (Or.inr (Multiset.mem_map_of_mem _ hdue))) hinbox
  obtain ⟨y, hy, hposts⟩ := mem_postsOf.mp hq
  exact ⟨y, hy, hposts.trans (congrArg some (Prod.ext hinbox hsame))⟩

/-- Inboxes are not ever newer: whatever is due is due at the end of the chain. -/
theorem not_ascending (hb : Balanced A made base tl shares) {P : Share A.Charge → Prop}
    (hnext : ∀ x ∈ shares, P x → ∀ d, x.due = some d →
      ∃ y ∈ shares, P y ∧ ∃ e, y.due = some e ∧ d.inbox < e.inbox)
    (hx : x ∈ shares) (hP : P x) : x.due = none := by
  refine Option.eq_none_iff_forall_ne_some.mpr fun first hfirst => ?_
  have hnewer : ∀ n, ∃ y ∈ shares, P y ∧ ∃ d, y.due = some d ∧ n ≤ d.inbox := by
    intro n
    induction n with
    | zero => exact ⟨x, hx, hP, first, hfirst, Nat.zero_le _⟩
    | succ n ih =>
      obtain ⟨y, hy, hPy, d, hd, hle⟩ := ih
      obtain ⟨z, hz, hPz, e, he, hlt⟩ := hnext y hy hPy d hd
      exact ⟨z, hz, hPz, e, he, Nat.lt_of_le_of_lt hle hlt⟩
  obtain ⟨y, hy, -, d, hd, hle⟩ := hnewer (boxes tl).size
  have hmade : d.inbox < (boxes tl).size := hb.mail.made d.place (Multiset.mem_add.mpr
    (Or.inr (Multiset.mem_map_of_mem _ (mem_duesOf.mpr ⟨y, hy, hd⟩))))
  exact Nat.lt_irrefl _ (Nat.lt_of_lt_of_le hmade hle)

/-- Who cannot go on under a cancelled token has a race, and waits there for a branch that sits under
a cancelled token too. -/
theorem waits_for (hb : Balanced A made base tl shares) (hstill : ∀ x ∈ shares, Still K role tl x)
    (hx : x ∈ shares) {t : Token} (ht : x.seat = some t) (hc : tl.tokens.isCancelled t = true) :
    ∃ d, x.due = some d ∧ ∃ y ∈ shares, y.posts = some (d.inbox, d.race) ∧
      ∃ s, y.seat = some s ∧ tl.tokens.isCancelled s = true := by
  rcases hstill x hx with ⟨charges, rfl⟩ | ⟨which, r, watched, -, hparked, hstuck⟩
  · exact absurd ht (by simp [Share.ofCharges])
  have hdue : x.due.isSome = true := by
    refine (hparked.seat t ht).resolve_left fun hw => ?_
    exact Bool.eq_false_iff.mp (hstuck.1 t hw) hc
  obtain ⟨d, hd⟩ := Option.isSome_iff_exists.mp hdue
  obtain ⟨rfl, hpos⟩ := hparked.due d hd
  have hrace : tl.tokens.isCancelled d.race = true := by
    rcases (hb.seated x hx).due d hd with hrace | ⟨s, hs, hchild⟩
    · exact hrace
    · obtain rfl : t = s := Option.some.inj (ht.symm.trans hs)
      exact hb.forest.sealed t d.race hchild hc
  obtain ⟨y, hy, hposts⟩ := hb.exists_post hx hd hpos (letters_of_stuck hstuck)
  obtain ⟨s, hs, hplace⟩ := (hb.seated y hy).posts _ hposts
  exact ⟨d, hd, y, hy, hposts, s, hs, hplace.elim (fun hchild => hb.forest.sealed _ s hchild hrace) id⟩

/-- When nobody can go on, nobody sits under a cancelled token. -/
theorem seat_live (hb : Balanced A made base tl shares)
    (hstill : ∀ x ∈ shares, Still K role tl x) (hx : x ∈ shares) {t : Token}
    (ht : x.seat = some t) : tl.tokens.isCancelled t = false := by
  refine Bool.eq_false_iff.mpr fun hc => ?_
  -- Otherwise there are readers of ever newer inboxes.
  have hnone := hb.not_ascending (P := fun y => ∃ s, y.seat = some s ∧ tl.tokens.isCancelled s = true)
    (fun y hy ⟨s, hs, hcs⟩ d hd => by
      obtain ⟨d', hd', z, hz, hposts, u, hu, hcu⟩ := hb.waits_for hstill hy hs hcs
      obtain rfl : d = d' := Option.some.inj (hd.symm.trans hd')
      obtain ⟨e, he, -⟩ := hb.waits_for hstill hz hu hcu
      exact ⟨z, hz, ⟨u, hu, hcu⟩, e, he, (hb.proper z hz).rising (d.inbox, d.race) hposts e he⟩)
    hx ⟨t, ht, hc⟩
  obtain ⟨d, hd, -⟩ := hb.waits_for hstill hx ht hc
  exact absurd (hd.symm.trans hnone) nofun

/-- When nobody can go on and nobody could be interrupted, nothing is due from any race. -/
theorem due_eq_none (hb : Balanced A made base tl shares)
    (hstill : ∀ x ∈ shares, (∃ charges, x = .ofCharges charges) ∨
      ∃ which r, x.Parked (B := B) which r [] ∧ Stuck K tl r []) (hx : x ∈ shares) : x.due = none := by
  refine hb.not_ascending (P := fun _ => True) (fun y hy _ d hd => ?_) hx trivial
  rcases hstill y hy with ⟨charges, rfl⟩ | ⟨which, r, hparked, hstuck⟩
  · exact absurd hd (by simp [Share.ofCharges])
  obtain ⟨rfl, hpos⟩ := hparked.due d hd
  obtain ⟨z, hz, hposts⟩ := hb.exists_post hy hd hpos (letters_of_stuck hstuck)
  obtain ⟨s, hs, -⟩ := (hb.seated z hz).posts _ hposts
  rcases hstill z hz with ⟨charges, rfl⟩ | ⟨which', r', hparked', -⟩
  · exact absurd hs (by simp [Share.ofCharges])
  have hdue : z.due.isSome = true := (hparked'.seat s hs).resolve_left List.not_mem_nil
  obtain ⟨e, he⟩ := Option.isSome_iff_exists.mp hdue
  exact ⟨z, hz, trivial, e, he, (hb.proper z hz).rising (d.inbox, d.race) hposts e he⟩

/-- Time passes up to the next time that somebody waits for, and that is before every deadline. -/
theorem wait_still (hb : Balanced A made base tl shares) {time : Nat} (hle : tl.clock ≤ time)
    (hstill : ∀ x ∈ shares, (∃ charges, x = .ofCharges charges) ∨
      ∃ which r watched, x.Parked (B := B) which r watched ∧ Stuck K tl r watched ∧
        ∀ wake, r = .sleepUntil wake → time ≤ wake) :
    Balanced A made base { tl with clock := time } shares := by
  have hstill' : ∀ x ∈ shares, Still K (fun _ => True) tl x := fun x hx =>
    (hstill x hx).imp_right fun ⟨which, r, watched, hparked, hstuck, _⟩ =>
      ⟨which, r, watched, trivial, hparked, hstuck⟩
  refine hb.wait hle fun e he hpos => ?_
  obtain ⟨x, hx, hxe⟩ := mem_errandsOf.mp he
  have hlive : tl.tokens.isCancelled e.interrupt.token = false :=
    hb.seat_live hstill' hx ((hb.proper x hx).errand e hxe)
  have hdeadline : e.interrupt.deadline = some (e.began + e.interrupt.timeout) := by
    rcases (hb.errands.sound e he).limit with ⟨hzero, -⟩ | ⟨-, hd, -⟩
    · omega
    · exact hd
  have htimer : e ∈ timersOf shares := by
    refine (hb.errands.timed e he (by rw [hdeadline]; rfl)).resolve_left ?_
    rw [hlive]
    exact Bool.false_ne_true
  obtain ⟨y, hy, hye⟩ := mem_timersOf.mp htimer
  rcases hstill y hy with ⟨charges, rfl⟩ | ⟨which, r, watched, hparked, -, hwake⟩
  · exact absurd hye (by simp [Share.ofCharges])
  · obtain ⟨deadline, hd, rfl⟩ := hparked.timer e hye
    obtain rfl : deadline = e.began + e.interrupt.timeout :=
      Option.some.inj (hd.symm.trans hdeadline)
    exact hwake _ rfl

/-! ### Only the background is left -/

/-- A branch that has still to post is awaited by a branch that has still to post to an older inbox,
when nobody else is left who could have a race. -/
theorem awaited (hb : Balanced A made base tl shares)
    (hstill : ∀ x ∈ shares, Still K (· = .background) tl x) (hx : x ∈ shares)
    {q : Inbox × Token} (hq : x.posts = some q) :
    ∃ y ∈ shares, ∃ q', y.posts = some q' ∧ q'.1 < q.1 := by
  obtain ⟨t, ht, hplace⟩ := (hb.seated x hx).posts q hq
  have hlive := hb.seat_live hstill hx ht
  have hmem : q ∈ postsOf shares := mem_postsOf.mpr ⟨x, hx, hq⟩
  have hopen : shut (boxes tl) q.1 = false := by
    refine Bool.eq_false_iff.mpr fun hshut => Bool.eq_false_iff.mp hlive ?_
    have hover := hb.stopped q hmem hshut
    exact hplace.elim (fun hchild => hb.forest.sealed q.2 t hchild hover) id
  have howed : 0 < owed q.1 (duesOf shares) := by
    rw [← hb.mail.count q.1 hopen]
    have hpos : 0 < (postsOf shares).countP (·.1 = q.1) := Multiset.countP_pos.mpr ⟨q, hmem, rfl⟩
    exact Nat.lt_of_lt_of_le hpos (Nat.le_add_left _ _)
  obtain ⟨d, hd, hinbox⟩ := exists_due howed
  have hsame : d.race = q.2 := hb.mail.single d.place (Multiset.mem_add.mpr
    (Or.inr (Multiset.mem_map_of_mem _ hd))) q (Multiset.mem_add.mpr (Or.inl hmem)) hinbox
  obtain ⟨y, hy, hyd⟩ := mem_duesOf.mp hd
  have hseat : ∃ s, y.seat = some s := by
    rcases (hb.seated y hy).due d hyd with hrace | ⟨s, hs, -⟩
    · refine absurd ?_ (Bool.eq_false_iff.mp hlive)
      rcases hplace with hchild | hc
      · exact hb.forest.sealed q.2 t hchild (hsame ▸ hrace)
      · exact hc
    · exact ⟨s, hs⟩
  obtain ⟨s, hs⟩ := hseat
  rcases hstill y hy with ⟨charges, rfl⟩ | ⟨which, r, watched, rfl, hparked, -⟩
  · exact absurd hs (by simp [Share.ofCharges])
  · have hposts := (hparked.active (by rw [hs]; rfl)).resolve_left
      (by rw [hparked.aside rfl]; exact Bool.false_ne_true)
    obtain ⟨q', hq'⟩ := Option.isSome_iff_exists.mp hposts
    exact ⟨y, hy, q', hq', hinbox ▸ (hb.proper y hy).rising q' hq' d hyd⟩

/-- Nobody has still to post. -/
theorem posts_empty (hb : Balanced A made base tl shares)
    (hstill : ∀ x ∈ shares, Still K (· = .background) tl x) : postsOf shares = 0 := by
  have hnone : ∀ n, ∀ x ∈ shares, ∀ q, x.posts = some q → q.1 ≠ n := by
    intro n
    induction n using Nat.strong_induction_on with
    | _ n ih =>
      intro x hx q hq heq
      obtain ⟨y, hy, q', hq', hlt⟩ := hb.awaited hstill hx hq
      exact ih q'.1 (heq ▸ hlt) y hy q' hq' rfl
  refine Multiset.eq_zero_of_forall_notMem fun q hq => ?_
  obtain ⟨x, hx, hxq⟩ := mem_postsOf.mp hq
  exact hnone q.1 x hx q hxq rfl

/-- Nothing is in the inboxes. -/
theorem letters_empty (hb : Balanced A made base tl shares)
    (hstill : ∀ x ∈ shares, Still K (· = .background) tl x) (i : Inbox) :
    letters (boxes tl) i = [] := by
  have hdues : owed i (duesOf shares) = 0 := by
    by_contra howed
    obtain ⟨d, hd, rfl⟩ := exists_due (Nat.pos_of_ne_zero howed)
    obtain ⟨x, hx, hxd⟩ := mem_duesOf.mp hd
    rcases hstill x hx with ⟨charges, rfl⟩ | ⟨which, r, watched, -, hparked, hstuck⟩
    · exact absurd hxd (by simp [Share.ofCharges])
    · obtain ⟨rfl, -⟩ := hparked.due d hxd
      have hcount := hb.mail.count d.inbox (hb.mail.read d hd)
      rw [letters_of_stuck hstuck, hb.posts_empty hstill, Multiset.countP_zero] at hcount
      exact howed hcount.symm
  rcases hshut : shut (boxes tl) i with _ | _
  case true => exact hb.mail.bare i hshut
  have hcount := hb.mail.count i hshut
  rw [hdues] at hcount
  exact List.length_eq_zero_iff.mp (Nat.eq_zero_of_add_eq_zero_right hcount)

theorem enclosed_empty (hb : Balanced A made base tl shares)
    (hstill : ∀ x ∈ shares, Still K (· = .background) tl x) : enclosedAll A.chargeOf (boxes tl) = 0 := by
  unfold enclosedAll
  refine List.sum_eq_zero fun g hg => ?_
  obtain ⟨s, hs, rfl⟩ := List.mem_map.mp hg
  obtain ⟨i, hi, hget⟩ := List.mem_iff_getElem.mp hs
  have hletters := hb.letters_empty hstill i
  unfold letters at hletters
  rw [← Array.getElem?_toList, List.getElem?_eq_getElem hi, hget] at hletters
  have hmessages : s.messages = [] := hletters
  rw [hmessages]
  rfl

/-- Whoever is left holds a handle only if a caller was given it. -/
theorem charges_empty (hb : Balanced A made base tl shares)
    (hstill : ∀ x ∈ shares, Still K (· = .background) tl x) (hx : x ∈ shares)
    (hparked : ∃ r watched, x.Parked (B := B) .background r watched) : x.charges = 0 := by
  obtain ⟨r, watched, hparked⟩ := hparked
  refine hparked.bare (Option.eq_none_iff_forall_ne_some.mpr fun t ht => ?_)
  have hposts := (hparked.active (by rw [ht]; rfl)).resolve_left
    (by rw [hparked.aside rfl]; exact Bool.false_ne_true)
  obtain ⟨q, hq⟩ := Option.isSome_iff_exists.mp hposts
  have hmem : q ∈ postsOf shares := mem_postsOf.mpr ⟨x, hx, hq⟩
  rw [hb.posts_empty hstill] at hmem
  exact absurd hmem (by simp)

end Balanced

end Wayfind.Keeping
