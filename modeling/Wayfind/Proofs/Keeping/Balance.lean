/-
How the shares of all activities fit together, and how one activity changes its own.

Each lemma says what a request, or a few in a row, does to the share of whoever makes it,
and that the shares still fit together afterwards; the shares of the others stay as they
are.  The requests are those that a race, a branch and an operation make.
-/
import Wayfind.Proofs.Keeping.Account
import Wayfind.Proofs.Keeping.Errand

namespace Wayfind.Keeping

open Activity (Token Inbox Tokens InboxState Timeline)

variable {B : PageSide} {K : Activity.Backend B.signature} {γ : Type}

/-- The inboxes of a timeline. -/
def boxes (tl : Timeline B.signature K.World) : Array (InboxState (Except Error B.Handle)) :=
  tl.inboxes

section Totals

variable (shares : Multiset (Share γ))

/-- The charges of all. -/
def chargesOf : Multiset γ := (shares.map Share.charges).sum

/-- What all have still to post. -/
def postsOf : Multiset (Inbox × Token) := shares.bind fun x => ofOption x.posts

/-- What is due to all. -/
def duesOf : Multiset Due := shares.bind fun x => ofOption x.due

/-- The tokens under which all look and race. -/
def tokensOf : Multiset Token := shares.bind Share.tokens

/-- The operations that are under way. -/
def errandsOf : Multiset Errand := shares.bind fun x => ofOption x.errand

/-- The operations whose deadline is waited for. -/
def timersOf : Multiset Errand := shares.bind fun x => ofOption x.timer

end Totals

section Cons

variable (x : Share γ) (others : Multiset (Share γ))

@[simp] theorem chargesOf_cons : chargesOf (x ::ₘ others) = x.charges + chargesOf others := by
  simp [chargesOf]

@[simp] theorem postsOf_cons : postsOf (x ::ₘ others) = ofOption x.posts + postsOf others := by
  simp [postsOf]

@[simp] theorem duesOf_cons : duesOf (x ::ₘ others) = ofOption x.due + duesOf others := by
  simp [duesOf]

@[simp] theorem tokensOf_cons : tokensOf (x ::ₘ others) = x.tokens + tokensOf others := by
  simp [tokensOf]

@[simp] theorem errandsOf_cons : errandsOf (x ::ₘ others) = ofOption x.errand + errandsOf others := by
  simp [errandsOf]

@[simp] theorem timersOf_cons : timersOf (x ::ₘ others) = ofOption x.timer + timersOf others := by
  simp [timersOf]

end Cons

/-- The shares fit together in the timeline.  Tokens from `made` on were made since, and `base` is what
was owed before. -/
structure Balanced (A : Account K) (made : Nat) (base : Multiset A.Charge)
    (tl : Timeline B.signature K.World) (shares : Multiset (Share A.Charge)) : Prop where
  /-- What is owed was owed before, is somebody's, or lies in an inbox. -/
  ledger : A.Owes tl.world (base + chargesOf shares + enclosedAll A.chargeOf (boxes tl))
  mail : Mail (boxes tl) (postsOf shares) (duesOf shares)
  /-- Who posts to a closed inbox looks under a race that is over. -/
  stopped : ∀ q ∈ postsOf shares, shut (boxes tl) q.1 = true → tl.tokens.isCancelled q.2 = true
  forest : tl.tokens.Forest
  distinct : (tokensOf shares).Nodup
  range : ∀ t ∈ tokensOf shares, made ≤ t ∧ t < tl.tokens.count
  proper : ∀ x ∈ shares, x.Proper
  seated : ∀ x ∈ shares, x.Seated tl.tokens
  errands : Errands made tl.tokens tl.clock (errandsOf shares) (timersOf shares)
  outside : made ≤ tl.tokens.count

/-- A share fits together with those of the others: the same, with one share set apart, and said of
the parts of a timeline that matter. -/
structure Fits (A : Account K) (made : Nat) (base : Multiset A.Charge) (world : K.World)
    (boxes : Array (InboxState (Except Error B.Handle))) (tokens : Tokens) (clock : Nat)
    (x : Share A.Charge) (others : Multiset (Share A.Charge)) : Prop where
  ledger : A.Owes world (base + (x.charges + chargesOf others) + enclosedAll A.chargeOf boxes)
  mail : Mail boxes (ofOption x.posts + postsOf others) (ofOption x.due + duesOf others)
  stopped : ∀ q ∈ ofOption x.posts + postsOf others,
    shut boxes q.1 = true → tokens.isCancelled q.2 = true
  forest : tokens.Forest
  distinct : (x.tokens + tokensOf others).Nodup
  range : ∀ t ∈ x.tokens + tokensOf others, made ≤ t ∧ t < tokens.count
  proper : x.Proper
  othersProper : ∀ y ∈ others, y.Proper
  seated : x.Seated tokens
  othersSeated : ∀ y ∈ others, y.Seated tokens
  errands : Errands made tokens clock (ofOption x.errand + errandsOf others)
    (ofOption x.timer + timersOf others)
  outside : made ≤ tokens.count

variable {A : Account K} {made : Nat} {base : Multiset A.Charge} {tl : Timeline B.signature K.World}
  {x : Share A.Charge} {others : Multiset (Share A.Charge)}

/-! ### Where tokens stand -/

variable {y : Share γ}

theorem Share.Seated.make {tokens : Tokens} (h : y.Seated tokens)
    (hrange : ∀ t ∈ y.tokens, t < tokens.count) (parent : Option Token)
    (hparent : ∀ t ∈ y.seat, parent ≠ some t) : y.Seated (tokens.make parent).2 := by
  have hseat : ∀ t ∈ y.seat, t < tokens.count := fun t ht =>
    hrange t (by simp [Share.tokens, show y.seat = some t from ht])
  have hgrow : ∀ {a u}, u ∈ tokens.children a → u ∈ (tokens.make parent).2.children a := by
    intro a u hu
    rw [Tokens.children_make]
    split
    · exact List.mem_append_left _ hu
    · exact hu
  refine ⟨?_, ?_, ?_⟩
  · intro t ht u hu
    obtain ⟨hchild, hlive⟩ := Tokens.mem_row.mp hu
    rw [Tokens.children_make, if_neg fun hc => hparent t ht hc.1] at hchild
    refine h.row t ht u (Tokens.mem_row.mpr ⟨hchild, Bool.eq_false_iff.mpr fun hc => ?_⟩)
    exact Bool.eq_false_iff.mp hlive (isCancelled_make_of_isCancelled parent hc)
  · intro q hq
    obtain ⟨t, ht, hplace⟩ := h.posts q hq
    exact ⟨t, ht, hplace.imp hgrow (isCancelled_make_of_isCancelled parent)⟩
  · intro d hd
    refine (h.due d hd).imp (isCancelled_make_of_isCancelled parent) ?_
    exact fun ⟨t, ht, hplace⟩ => ⟨t, ht, hgrow hplace⟩

theorem Share.Seated.discard {tokens : Tokens} {t : Token} (h : y.Seated tokens)
    (hf : tokens.Forest) (hrow : tokens.row t = []) (ht : t ∉ y.tokens) :
    y.Seated (tokens.discard t) := by
  have hseat : ∀ s ∈ y.seat, s ≠ t := fun s hs hc =>
    ht (by simp [Share.tokens, show y.seat = some s from hs, hc])
  have hrace : ∀ d ∈ y.due, d.race ≠ t := fun d hd hc =>
    ht (by simp [Share.tokens, show y.due = some d from hd, hc])
  refine ⟨?_, ?_, ?_⟩
  · intro s hs u hu
    obtain ⟨hchild, hlive⟩ := Tokens.mem_row.mp hu
    rw [Tokens.isCancelled_discard] at hlive
    exact h.row s hs u (Tokens.mem_row.mpr ⟨((hf.mem_children_discard hrow).mp hchild).1, hlive⟩)
  · intro q hq
    obtain ⟨s, hs, hplace⟩ := h.posts q hq
    rw [← Tokens.isCancelled_discard tokens t] at hplace
    exact ⟨s, hs, hplace.imp_left fun hc => (hf.mem_children_discard hrow).mpr ⟨hc, hseat s hs⟩⟩
  · intro d hd
    rw [Tokens.isCancelled_discard]
    refine (h.due d hd).imp_right ?_
    exact fun ⟨s, hs, hplace⟩ =>
      ⟨s, hs, (hf.mem_children_discard hrow).mpr ⟨hplace, hrace d hd⟩⟩

namespace Balanced

/-- Who is queued and which activities there are does not matter. -/
theorem ignores {shares : Multiset (Share A.Charge)} {after : Timeline B.signature K.World}
    (h : Balanced A made base tl shares) (hworld : after.world = tl.world)
    (hclock : after.clock = tl.clock) (htokens : after.tokens = tl.tokens)
    (hinboxes : boxes after = boxes tl) : Balanced A made base after shares := by
  refine ⟨?_, ?_, ?_, ?_, h.distinct, ?_, h.proper, ?_, ?_, ?_⟩
  · rw [hworld, hinboxes]; exact h.ledger
  · rw [hinboxes]; exact h.mail
  · rw [hinboxes, htokens]; exact h.stopped
  · rw [htokens]; exact h.forest
  · rw [htokens]; exact h.range
  · rw [htokens]; exact h.seated
  · rw [htokens, hclock]; exact h.errands
  · rw [htokens]; exact h.outside

end Balanced

theorem balanced_cons : Balanced A made base tl (x ::ₘ others) ↔
    Fits A made base tl.world (boxes tl) tl.tokens tl.clock x others := by
  constructor
  · intro h
    obtain ⟨h₁, h₂, h₃, h₄, h₅, h₆, h₇, h₈, h₉, h₁₀⟩ := h
    rw [Multiset.forall_mem_cons] at h₇ h₈
    simp only [chargesOf_cons, postsOf_cons, duesOf_cons, tokensOf_cons, errandsOf_cons,
      timersOf_cons] at h₁ h₂ h₃ h₅ h₆ h₉
    exact ⟨h₁, h₂, h₃, h₄, h₅, h₆, h₇.1, h₇.2, h₈.1, h₈.2, h₉, h₁₀⟩
  · intro h
    refine ⟨?_, ?_, ?_, h.forest, ?_, ?_, ?_, ?_, ?_, h.outside⟩
    · rw [chargesOf_cons]; exact h.ledger
    · rw [postsOf_cons, duesOf_cons]; exact h.mail
    · rw [postsOf_cons]; exact h.stopped
    · rw [tokensOf_cons]; exact h.distinct
    · rw [tokensOf_cons]; exact h.range
    · exact Multiset.forall_mem_cons.mpr ⟨h.proper, h.othersProper⟩
    · exact Multiset.forall_mem_cons.mpr ⟨h.seated, h.othersSeated⟩
    · rw [errandsOf_cons, timersOf_cons]; exact h.errands

namespace Balanced

/-- Who holds nothing changes nothing. -/
theorem cons_nothing {shares : Multiset (Share A.Charge)} :
    Balanced A made base tl (Share.nothing ::ₘ shares) ↔ Balanced A made base tl shares := by
  rw [balanced_cons]
  constructor
  · intro h
    refine ⟨?_, ?_, ?_, h.forest, ?_, ?_, h.othersProper, h.othersSeated, ?_, h.outside⟩
    · simpa [Share.nothing] using h.ledger
    · simpa [Share.nothing] using h.mail
    · simpa [Share.nothing] using h.stopped
    · simpa [Share.nothing, Share.tokens] using h.distinct
    · simpa [Share.nothing, Share.tokens] using h.range
    · simpa [Share.nothing] using h.errands
  · intro h
    refine ⟨?_, ?_, ?_, h.forest, ?_, ?_, ⟨nofun, nofun⟩, h.proper, ⟨nofun, nofun, nofun⟩, h.seated, ?_,
      h.outside⟩
    · simpa [Share.nothing] using h.ledger
    · simpa [Share.nothing] using h.mail
    · simpa [Share.nothing] using h.stopped
    · simpa [Share.nothing, Share.tokens] using h.distinct
    · simpa [Share.nothing, Share.tokens] using h.range
    · simpa [Share.nothing] using h.errands

end Balanced

/-- What a branch holds when it starts: its token, and where it has to post. -/
def Share.ofBranch (t : Token) (inbox : Inbox) (race : Token) : Share γ :=
  { Share.nothing with seat := some t, posts := some (inbox, race) }

namespace Fits

variable {world : K.World} {boxes : Array (InboxState (Except Error B.Handle))} {tokens : Tokens}
  {clock : Nat}

/-- What somebody has to release changes, and what the world owes. -/
theorem ask (h : Fits A made base world boxes tokens clock x others) {world' : K.World}
    {charges : Multiset A.Charge}
    (hworld : A.Owes world' (base + (charges + chargesOf others) + enclosedAll A.chargeOf boxes)) :
    Fits A made base world' boxes tokens clock { x with charges := charges } others :=
  ⟨hworld, h.mail, h.stopped, h.forest, h.distinct, h.range, ⟨h.proper.1, h.proper.2⟩, h.othersProper,
    ⟨h.seated.row, h.seated.posts, h.seated.due⟩, h.othersSeated, h.errands, h.outside⟩

theorem seat_range (h : Fits A made base world boxes tokens clock x others) {t : Token}
    (ht : x.seat = some t) : made ≤ t ∧ t < tokens.count :=
  h.range t (by simp [Share.tokens, ht])

theorem race_range (h : Fits A made base world boxes tokens clock x others) {d : Due}
    (hd : x.due = some d) : made ≤ d.race ∧ d.race < tokens.count :=
  h.range d.race (by simp [Share.tokens, hd])

theorem own_lt (h : Fits A made base world boxes tokens clock x others) :
    ∀ t ∈ x.tokens, t < tokens.count :=
  fun t ht => (h.range t (Multiset.mem_add.mpr (Or.inl ht))).2

theorem other_lt (h : Fits A made base world boxes tokens clock x others) {y : Share A.Charge}
    (hy : y ∈ others) : ∀ t ∈ y.tokens, t < tokens.count := fun t ht =>
  (h.range t (Multiset.mem_add.mpr (Or.inr (Multiset.mem_bind.mpr ⟨y, hy, ht⟩)))).2

/-- The tokens of different shares are different. -/
theorem notMem_other (h : Fits A made base world boxes tokens clock x others) {y : Share A.Charge}
    (hy : y ∈ others) {t : Token} (ht : t ∈ x.tokens) : t ∉ y.tokens := fun hc =>
  Multiset.disjoint_left.mp (Multiset.nodup_add.mp h.distinct).2.2 ht
    (Multiset.mem_bind.mpr ⟨y, hy, hc⟩)

theorem mem_tokens_seat {x : Share γ} {t : Token} (ht : x.seat = some t) : t ∈ x.tokens := by
  simp [Share.tokens, ht]

theorem mem_tokens_race {x : Share γ} {d : Due} (hd : x.due = some d) : d.race ∈ x.tokens := by
  simp [Share.tokens, hd]

/-- What was cancelled stays so, wherever a token is made. -/
theorem stopped_make (h : Fits A made base world boxes tokens clock x others) (parent : Option Token) :
    ∀ q ∈ ofOption x.posts + postsOf others, shut boxes q.1 = true →
      (tokens.make parent).2.isCancelled q.2 = true := fun q hq hshut =>
  isCancelled_make_of_isCancelled parent (h.stopped q hq hshut)

/-! ### Races -/

/-- A race is opened: a token under the seat, and an inbox. -/
theorem openRace (h : Fits A made base world boxes tokens clock x others) {t : Token}
    (ht : x.seat = some t) (hdue : x.due = none) :
    Fits A made base world (boxes.push ⟨[], false⟩) (tokens.make (some t)).2 clock
      { x with due := some ⟨boxes.size, tokens.count, 0⟩ } others := by
  have hnew : tokens.count ∉ x.tokens + tokensOf others := fun hc =>
    Nat.lt_irrefl _ (h.range _ hc).2
  have hseat := h.seat_range ht
  have hxtokens : x.tokens = {t} := by simp [Share.tokens, ht, hdue]
  have htokens : ({ x with due := some ⟨boxes.size, tokens.count, 0⟩ } : Share A.Charge).tokens +
      tokensOf others = tokens.count ::ₘ (x.tokens + tokensOf others) := by
    rw [hxtokens]
    simp only [Share.tokens, ht, Option.map_some, ofOption_some, ← Multiset.singleton_add]
    abel
  refine ⟨?_, ?_, ?_, h.forest.make (some t), ?_, ?_, ⟨?_, h.proper.2⟩, h.othersProper, ⟨?_, ?_, ?_⟩,
    ?_, h.errands.make (some t), ?_⟩
  · refine (congrArg (A.Owes world) ?_).mpr h.ledger
    rw [enclosedAll_push]
    exact congrArg (_ + ·) (add_zero _)
  · have hmail := h.mail
    rw [hdue, ofOption_none, zero_add] at hmail
    have hopened := hmail.openInbox tokens.count
    rw [← Multiset.singleton_add] at hopened
    exact hopened
  · intro q hq hshut
    have hmade : q.1 < boxes.size := h.mail.made q (Multiset.mem_add.mpr (Or.inl hq))
    rw [shut_push, if_neg (Nat.ne_of_lt hmade)] at hshut
    exact h.stopped_make _ q hq hshut
  · rw [htokens]
    exact Multiset.nodup_cons.mpr ⟨hnew, h.distinct⟩
  · rw [htokens]
    rw [Tokens.count_make]
    refine Multiset.forall_mem_cons.mpr ⟨⟨h.outside, Nat.lt_succ_self _⟩, fun s hs => ?_⟩
    exact ⟨(h.range s hs).1, Nat.lt_succ_of_lt (h.range s hs).2⟩
  · intro q hq d hd
    obtain rfl := Option.some.inj hd
    refine h.mail.made q ?_
    rw [show x.posts = some q from hq]
    simp
  · intro s hs u hu
    obtain rfl : t = s := Option.some.inj (ht.symm.trans hs)
    refine ⟨_, rfl, ?_⟩
    obtain ⟨hchild, hlive⟩ := Tokens.mem_row.mp hu
    rw [Tokens.children_make, if_pos ⟨rfl, hseat.2⟩] at hchild
    rcases List.mem_append.mp hchild with hold | hlast
    · -- What stood under the seat before is cancelled, as there was no race.
      have hrow : u ∈ tokens.row t := Tokens.mem_row.mpr
        ⟨hold, Bool.eq_false_iff.mpr fun hc =>
          Bool.eq_false_iff.mp hlive (isCancelled_make_of_isCancelled _ hc)⟩
      obtain ⟨d, hd, -⟩ := h.seated.row t ht u hrow
      rw [hdue] at hd
      exact absurd hd (by simp)
    · exact (List.mem_singleton.mp hlast).symm
  · intro q hq
    obtain ⟨s, hs, hplace⟩ := h.seated.posts q hq
    refine ⟨s, hs, hplace.imp ?_ (isCancelled_make_of_isCancelled _)⟩
    intro hc
    rw [Tokens.children_make]
    split
    · exact List.mem_append_left _ hc
    · exact hc
  · intro d hd
    obtain rfl := Option.some.inj hd
    refine Or.inr ⟨t, ht, ?_⟩
    rw [Tokens.children_make, if_pos ⟨rfl, hseat.2⟩]
    exact List.mem_append_right _ (List.mem_singleton_self _)
  · intro y hy
    refine (h.othersSeated y hy).make (h.other_lt hy) _ ?_
    intro s hs hc
    exact h.notMem_other hy (mem_tokens_seat ht) (Option.some.inj hc ▸ mem_tokens_seat hs)
  · rw [Tokens.count_make]
    exact Nat.le_succ_of_le h.outside

/-- A branch is started: a token under the race, which the branch takes along. -/
theorem forkBranch (h : Fits A made base world boxes tokens clock x others) {inbox : Inbox}
    {race : Token} {n : Nat} (hdue : x.due = some ⟨inbox, race, n⟩) :
    Fits A made base world boxes (tokens.make (some race)).2 clock
      { x with due := some ⟨inbox, race, n + 1⟩ }
      (Share.ofBranch tokens.count inbox race ::ₘ others) := by
  have hrace := h.race_range hdue
  have hnew : tokens.count ∉ x.tokens + tokensOf others := fun hc =>
    Nat.lt_irrefl _ (h.range _ hc).2
  have hnotSeat : ∀ t ∈ x.seat, (some race : Option Token) ≠ some t := by
    intro t ht hc
    have hdistinct := (Multiset.nodup_add.mp h.distinct).1
    rw [Share.tokens, show x.seat = some t from ht, hdue] at hdistinct
    rw [Option.some.inj hc] at hdistinct
    simp at hdistinct
  have htokens : ({ x with due := some ⟨inbox, race, n + 1⟩ } : Share A.Charge).tokens +
      tokensOf (Share.ofBranch tokens.count inbox race ::ₘ others) =
      tokens.count ::ₘ (x.tokens + tokensOf others) := by
    rw [tokensOf_cons, ← Multiset.singleton_add]
    simp only [Share.tokens, Share.ofBranch, Share.nothing, hdue, Option.map_some, Option.map_none,
      ofOption_some, ofOption_none]
    abel
  have hseated := h.seated.make h.own_lt (some race) hnotSeat
  have hread : shut boxes inbox = false :=
    h.mail.read ⟨inbox, race, n⟩ (Multiset.mem_add.mpr (Or.inl (mem_ofOption.mpr hdue)))
  refine ⟨?_, ?_, ?_, h.forest.make (some race), ?_, ?_, ⟨?_, h.proper.2⟩, ?_,
    ⟨?_, hseated.posts, ?_⟩, ?_, ?_, ?_⟩
  · refine (congrArg (A.Owes world) ?_).mpr h.ledger
    simp [Share.ofBranch, Share.nothing]
  · have hmail := h.mail
    rw [hdue, ofOption_some, Multiset.singleton_add] at hmail
    have hexpect := hmail.expect
    rw [postsOf_cons, duesOf_cons]
    simp only [Share.ofBranch, Share.nothing, ofOption_some, ofOption_none, zero_add]
    rw [← Multiset.singleton_add, ← Multiset.singleton_add, ← add_assoc,
      add_comm {(inbox, race)}, add_assoc] at hexpect
    exact hexpect
  · intro q hq hshut
    rw [postsOf_cons, add_left_comm] at hq
    rcases Multiset.mem_add.mp hq with hq | hq
    · obtain rfl : (inbox, race) = q := Option.some.inj (mem_ofOption.mp hq)
      exact absurd hshut (by rw [hread]; exact Bool.false_ne_true)
    · exact h.stopped_make _ q hq hshut
  · rw [htokens]
    exact Multiset.nodup_cons.mpr ⟨hnew, h.distinct⟩
  · rw [htokens]
    rw [Tokens.count_make]
    refine Multiset.forall_mem_cons.mpr ⟨⟨h.outside, Nat.lt_succ_self _⟩, fun s hs => ?_⟩
    exact ⟨(h.range s hs).1, Nat.lt_succ_of_lt (h.range s hs).2⟩
  · intro q hq d hd
    obtain rfl := Option.some.inj hd
    exact h.proper.rising q hq ⟨inbox, race, n⟩ hdue
  · refine Multiset.forall_mem_cons.mpr ⟨⟨?_, nofun⟩, h.othersProper⟩
    intro q hq d hd
    exact absurd hd (by simp [Share.ofBranch, Share.nothing])
  · intro t ht u hu
    obtain ⟨d, hd, hu⟩ := hseated.row t ht u hu
    rw [show x.due = some d from hd] at hdue
    exact ⟨_, rfl, by rw [← hu, Option.some.inj hdue]⟩
  · intro d hd
    obtain rfl := Option.some.inj hd
    exact hseated.due ⟨inbox, race, n⟩ hdue
  · refine Multiset.forall_mem_cons.mpr ⟨⟨?_, ?_, nofun⟩, ?_⟩
    · intro t ht u hu
      obtain rfl : tokens.count = t := Option.some.inj ht
      have hchild := Tokens.mem_children_of_mem_row hu
      rw [Tokens.children_make, if_neg fun hc => Nat.lt_irrefl _ hc.2,
        Tokens.children_eq_nil (Nat.le_refl _)] at hchild
      exact absurd hchild (by simp)
    · intro q hq
      obtain rfl := Option.some.inj hq
      refine ⟨_, rfl, Or.inl ?_⟩
      rw [Tokens.children_make, if_pos ⟨rfl, hrace.2⟩]
      exact List.mem_append_right _ (List.mem_singleton_self _)
    · intro y hy
      refine (h.othersSeated y hy).make (h.other_lt hy) _ ?_
      intro s hs hc
      exact h.notMem_other hy (mem_tokens_race hdue) (Option.some.inj hc ▸ mem_tokens_seat hs)
  · rw [errandsOf_cons, timersOf_cons]
    simpa [Share.ofBranch, Share.nothing] using h.errands.make (some race)
  · rw [Tokens.count_make]
    exact Nat.le_succ_of_le h.outside

/-- The reader of a race takes a message, with the handle in it. -/
theorem take (h : Fits A made base world boxes tokens clock x others) {inbox : Inbox} {race : Token}
    {n : Nat} (hdue : x.due = some ⟨inbox, race, n + 1⟩) {m : Except Error B.Handle}
    {rest : List (Except Error B.Handle)} (hm : letters boxes inbox = m :: rest) :
    Fits A made base world (boxes.modify inbox fun s => { s with messages := rest }) tokens clock
      { x with due := some ⟨inbox, race, n⟩, charges := A.chargeOf m + x.charges } others := by
  have hmail := h.mail
  rw [hdue, ofOption_some, Multiset.singleton_add] at hmail
  obtain ⟨s, hs⟩ := exists_inbox (hmail.made (inbox, race) (Mail.mem_cons_due.mpr (Or.inl rfl)))
  have hmessages : s.messages = m :: rest := (letters_of_getElem? hs).symm.trans hm
  refine ⟨?_, ?_, ?_, h.forest, ?_, ?_, ⟨?_, h.proper.2⟩, h.othersProper, ⟨?_, h.seated.posts, ?_⟩,
    h.othersSeated, h.errands, h.outside⟩
  · have hmodify := enclosedAll_modify (f := A.chargeOf) (fun s => { s with messages := rest }) hs
    have hfirst : enclosed A.chargeOf (m :: rest) = A.chargeOf m + enclosed A.chargeOf rest := by
      simp [enclosed]
    rw [hmessages, hfirst, ← add_assoc] at hmodify
    refine (congrArg (A.Owes world) ?_).mpr h.ledger
    rw [← add_right_cancel hmodify]
    show base + (A.chargeOf m + x.charges + chargesOf others) + _ = _
    ac_rfl
  · rw [ofOption_some, Multiset.singleton_add]
    exact hmail.take hm
  · intro q hq hshut
    rw [shut_modify _ hs] at hshut
    refine h.stopped q hq ?_
    split at hshut
    · rw [shut, ‹q.1 = inbox›, hs]
      exact hshut
    · exact hshut
  · have hdistinct := h.distinct
    simp only [Share.tokens, hdue, Option.map_some] at hdistinct ⊢
    exact hdistinct
  · have hrange := h.range
    simp only [Share.tokens, hdue, Option.map_some] at hrange ⊢
    exact hrange
  · intro q hq d hd
    obtain rfl := Option.some.inj hd
    exact h.proper.rising q hq ⟨inbox, race, n + 1⟩ hdue
  · intro t ht u hu
    obtain ⟨d, hd, hu⟩ := h.seated.row t ht u hu
    rw [show x.due = some d from hd] at hdue
    exact ⟨_, rfl, by rw [← hu, Option.some.inj hdue]⟩
  · intro d hd
    obtain rfl := Option.some.inj hd
    exact h.seated.due ⟨inbox, race, n + 1⟩ hdue

/-- A token is cancelled that belongs to no operation. -/
theorem cut (h : Fits A made base world boxes tokens clock x others) {t : Token} {after : Tokens}
    (hc : Cut tokens t after) (hforest : after.Forest)
    (ht : ∀ e ∈ ofOption x.errand + errandsOf others, t ∉ e.tokens) :
    Fits A made base world boxes after clock x others := by
  refine ⟨h.ledger, h.mail, ?_, hforest, h.distinct, ?_, h.proper, h.othersProper, h.seated.cut hc,
    fun y hy => (h.othersSeated y hy).cut hc, h.errands.cut h.forest ht hc, ?_⟩
  · exact fun q hq hshut => (hc.isCancelled q.2).mpr (Or.inr (h.stopped q hq hshut))
  · rw [hc.count]
    exact h.range
  · rw [hc.count]
    exact h.outside

/-- The token of a race belongs to no operation, unless it is cancelled already. -/
theorem race_notMem (h : Fits A made base world boxes tokens clock x others) {d : Due}
    (hd : x.due = some d) (hlive : tokens.isCancelled d.race = false) :
    ∀ e ∈ ofOption x.errand + errandsOf others, d.race ∉ e.tokens := by
  rcases h.seated.due d hd with hc | ⟨t, ht, hplace⟩
  · rw [hlive] at hc
    exact absurd hc Bool.false_ne_true
  · exact h.errands.child_notMem (h.seat_range ht).1 hplace

/-- Who has a race that is cancelled can leave it to somebody else. -/
theorem handOver (h : Fits A made base world boxes tokens clock x others) {d : Due}
    (hd : x.due = some d) (hc : tokens.isCancelled d.race = true) :
    Fits A made base world boxes tokens clock { x with due := none }
      ({ Share.nothing with due := some d } ::ₘ others) := by
  have htokens : ({ x with due := none } : Share A.Charge).tokens +
      tokensOf ({ Share.nothing with due := some d } ::ₘ others) = x.tokens + tokensOf others := by
    rw [tokensOf_cons]
    simp only [Share.tokens, Share.nothing, hd, Option.map_some, Option.map_none, ofOption_some,
      ofOption_none]
    abel
  refine ⟨?_, ?_, ?_, h.forest, ?_, ?_, ⟨nofun, h.proper.2⟩, ?_, ⟨?_, h.seated.posts, nofun⟩, ?_, ?_,
    h.outside⟩
  · refine (congrArg (A.Owes world) ?_).mpr h.ledger
    simp [Share.nothing]
  · have hmail := h.mail
    rw [hd] at hmail
    rw [postsOf_cons, duesOf_cons]
    simpa [Share.nothing] using hmail
  · rw [postsOf_cons]
    simpa [Share.nothing] using h.stopped
  · rw [htokens]
    exact h.distinct
  · rw [htokens]
    exact h.range
  · exact Multiset.forall_mem_cons.mpr ⟨⟨nofun, nofun⟩, h.othersProper⟩
  · intro t ht u hu
    obtain ⟨d', hd', hrace⟩ := h.seated.row t ht u hu
    rw [hd] at hd'
    rw [Option.some.inj hd', hrace] at hc
    exact absurd hc (by rw [(Tokens.mem_row.mp hu).2]; exact Bool.false_ne_true)
  · refine Multiset.forall_mem_cons.mpr ⟨⟨nofun, nofun, ?_⟩, h.othersSeated⟩
    intro d' hd'
    obtain rfl := Option.some.inj hd'
    exact Or.inl hc
  · rw [errandsOf_cons, timersOf_cons]
    simpa [Share.nothing] using h.errands

/-- Who reads no race any more, since it is cancelled. -/
theorem leaveRace (h : Fits A made base world boxes tokens clock x others) {d : Due}
    (hd : x.due = some d) (hc : tokens.isCancelled d.race = true)
    {boxes' : Array (InboxState (Except Error B.Handle))} {charges : Multiset A.Charge}
    (hledger : A.Owes world (base + (charges + chargesOf others) + enclosedAll A.chargeOf boxes'))
    (hmail : Mail boxes' (ofOption x.posts + postsOf others) (duesOf others))
    (hstopped : ∀ q ∈ ofOption x.posts + postsOf others,
      shut boxes' q.1 = true → tokens.isCancelled q.2 = true) :
    Fits A made base world boxes' tokens clock { x with due := none, charges := charges } others := by
  have htokens : d.race ::ₘ (({ x with due := none } : Share A.Charge).tokens + tokensOf others) =
      x.tokens + tokensOf others := by
    rw [← Multiset.singleton_add]
    simp only [Share.tokens, hd, Option.map_some, Option.map_none, ofOption_some, ofOption_none]
    abel
  refine ⟨hledger, ?_, hstopped, h.forest, ?_, ?_, ⟨nofun, h.proper.2⟩, h.othersProper,
    ⟨?_, h.seated.posts, nofun⟩, h.othersSeated, h.errands, h.outside⟩
  · rw [ofOption_none, zero_add]
    exact hmail
  · have hdistinct := h.distinct
    rw [← htokens] at hdistinct
    exact (Multiset.nodup_cons.mp hdistinct).2
  · intro t ht
    exact h.range t (htokens ▸ Multiset.mem_cons_of_mem ht)
  · intro t ht u hu
    obtain ⟨d', hd', hrace⟩ := h.seated.row t ht u hu
    rw [hd] at hd'
    obtain rfl := Option.some.inj hd'
    obtain rfl : d.race = u := hrace
    exact absurd hc (by rw [(Tokens.mem_row.mp hu).2]; exact Bool.false_ne_true)

/-- A race from which everything was taken, and which is cancelled, is over. -/
theorem closeRace (h : Fits A made base world boxes tokens clock x others) {inbox : Inbox}
    {race : Token} (hd : x.due = some ⟨inbox, race, 0⟩) (hc : tokens.isCancelled race = true) :
    Fits A made base world boxes tokens clock { x with due := none } others := by
  have hmail := h.mail
  rw [hd, ofOption_some, Multiset.singleton_add] at hmail
  exact h.leaveRace hd hc h.ledger hmail.settle h.stopped

/-- Only one reads an inbox. -/
theorem reads_alone (h : Fits A made base world boxes tokens clock x others) {d : Due}
    (hd : x.due = some d) : ∀ d' ∈ duesOf others, d'.inbox ≠ d.inbox := by
  intro d' hd' hc
  have hplace : ∀ {e : Due}, e ∈ ofOption x.due + duesOf others →
      e.place ∈ ofOption x.posts + postsOf others + (ofOption x.due + duesOf others).map Due.place :=
    fun he => Multiset.mem_add.mpr (Or.inr (Multiset.mem_map_of_mem _ he))
  have hrace : d'.race = d.race := h.mail.single d'.place (hplace (Multiset.mem_add.mpr (Or.inr hd')))
    d.place (hplace (Multiset.mem_add.mpr (Or.inl (mem_ofOption.mpr hd)))) hc
  obtain ⟨y, hy, hyd⟩ := Multiset.mem_bind.mp hd'
  exact h.notMem_other hy (mem_tokens_race hd) (hrace ▸ mem_tokens_race (mem_ofOption.mp hyd))

/-- The reader of a race that is cancelled closes its inbox, and takes over the handles in it. -/
theorem abandonRace (h : Fits A made base world boxes tokens clock x others) {d : Due}
    (hd : x.due = some d) (hc : tokens.isCancelled d.race = true) :
    Fits A made base world (boxes.modify d.inbox fun _ => ⟨[], true⟩) tokens clock
      { x with due := none, charges := enclosed A.chargeOf (letters boxes d.inbox) + x.charges }
      others := by
  have hmail := h.mail
  rw [hd, ofOption_some, Multiset.singleton_add] at hmail
  have hmade : d.inbox < boxes.size := hmail.made d.place (Mail.mem_cons_due.mpr (Or.inl rfl))
  obtain ⟨s, hs⟩ := exists_inbox hmade
  refine h.leaveRace hd hc ?_ (hmail.close (h.reads_alone hd)) ?_
  · have hmodify := enclosedAll_modify (f := A.chargeOf) (fun _ => ⟨[], true⟩) hs
    rw [← letters_of_getElem? hs, show enclosed A.chargeOf ([] : List (Except Error B.Handle)) = 0
      from rfl, add_zero] at hmodify
    refine (congrArg (A.Owes world) ?_).mpr h.ledger
    rw [← hmodify]
    ac_rfl
  · intro q hq hshut
    rw [shut_modify _ hs] at hshut
    split at hshut
    · have hrace : q.2 = d.race := hmail.single q (Multiset.mem_add.mpr (Or.inl hq)) d.place
        (Mail.mem_cons_due.mpr (Or.inl rfl)) ‹_›
      rw [hrace]
      exact hc
    · exact h.stopped q hq hshut

/-! ### Branches -/

/-- A branch posts what it found, and with it the handle. -/
theorem post (h : Fits A made base world boxes tokens clock x others) {inbox : Inbox} {race : Token}
    (hposts : x.posts = some (inbox, race)) (hopen : shut boxes inbox = false)
    {m : Except Error B.Handle} {rest : Multiset A.Charge} (hcharges : x.charges = A.chargeOf m + rest) :
    Fits A made base world (boxes.modify inbox fun s => { s with messages := s.messages ++ [m] })
      tokens clock { x with posts := none, charges := rest } others := by
  have hmail := h.mail
  rw [hposts, ofOption_some, Multiset.singleton_add] at hmail
  obtain ⟨s, hs⟩ := exists_inbox (hmail.made (inbox, race) (Mail.mem_cons_post.mpr (Or.inl rfl)))
  refine ⟨?_, ?_, ?_, h.forest, h.distinct, h.range, ⟨nofun, h.proper.2⟩, h.othersProper,
    ⟨h.seated.row, nofun, h.seated.due⟩, h.othersSeated, h.errands, h.outside⟩
  · have hmodify := enclosedAll_modify (f := A.chargeOf)
      (fun s => { s with messages := s.messages ++ [m] }) hs
    have hgrown : enclosed A.chargeOf (s.messages ++ [m]) =
        A.chargeOf m + enclosed A.chargeOf s.messages := by
      simp [enclosed, add_comm]
    rw [hgrown, ← add_assoc] at hmodify
    refine (congrArg (A.Owes world) ?_).mpr h.ledger
    rw [hcharges, add_right_cancel hmodify]
    show base + (rest + chargesOf others) + _ = _
    ac_rfl
  · rw [ofOption_none, zero_add]
    exact hmail.post hopen m
  · intro q hq hshut
    rw [ofOption_none, zero_add] at hq
    rw [shut_modify _ hs] at hshut
    refine h.stopped q (Multiset.mem_add.mpr (Or.inr hq)) ?_
    split at hshut
    · rw [shut, ‹q.1 = inbox›, hs]
      exact hshut
    · exact hshut

/-- A branch finds its race given up, and keeps what it found. -/
theorem reject (h : Fits A made base world boxes tokens clock x others) {q : Inbox × Token}
    (hposts : x.posts = some q) (hshut : shut boxes q.1 = true) :
    Fits A made base world boxes tokens clock { x with posts := none } others := by
  have hmail := h.mail
  rw [hposts, ofOption_some, Multiset.singleton_add] at hmail
  refine ⟨h.ledger, ?_, ?_, h.forest, h.distinct, h.range, ⟨nofun, h.proper.2⟩, h.othersProper,
    ⟨h.seated.row, nofun, h.seated.due⟩, h.othersSeated, h.errands, h.outside⟩
  · rw [ofOption_none, zero_add]
    exact hmail.reject hshut
  · intro q' hq'
    rw [ofOption_none, zero_add] at hq'
    exact h.stopped q' (Multiset.mem_add.mpr (Or.inr hq'))

/-- A branch that is done lets go of its token. -/
theorem discard (h : Fits A made base world boxes tokens clock x others) {t : Token}
    (ht : x.seat = some t) (hposts : x.posts = none) (hdue : x.due = none) (herrand : x.errand = none) :
    Fits A made base world boxes (tokens.discard t) clock { x with seat := none } others := by
  have hrow : tokens.row t = [] := by
    refine List.eq_nil_iff_forall_not_mem.mpr fun u hu => ?_
    obtain ⟨d, hd, -⟩ := h.seated.row t ht u hu
    rw [hdue] at hd
    exact absurd hd (by simp)
  have htokens : t ::ₘ (({ x with seat := none } : Share A.Charge).tokens + tokensOf others) =
      x.tokens + tokensOf others := by
    rw [← Multiset.singleton_add]
    simp only [Share.tokens, ht, ofOption_some, ofOption_none]
    abel
  refine ⟨h.ledger, h.mail, ?_, h.forest.discard hrow, ?_, ?_, ⟨h.proper.1, ?_⟩, h.othersProper,
    ⟨nofun, ?_, ?_⟩, ?_, h.errands.discard h.forest hrow, ?_⟩
  · intro q hq hshut
    rw [Tokens.isCancelled_discard]
    exact h.stopped q hq hshut
  · have hdistinct := h.distinct
    rw [← htokens] at hdistinct
    exact (Multiset.nodup_cons.mp hdistinct).2
  · intro s hs
    rw [Tokens.count_discard]
    exact h.range s (htokens ▸ Multiset.mem_cons_of_mem hs)
  · intro e he
    rw [show x.errand = some e from he] at herrand
    exact absurd herrand (by simp)
  · intro q hq
    rw [show x.posts = some q from hq] at hposts
    exact absurd hposts (by simp)
  · intro d hd
    rw [show x.due = some d from hd] at hdue
    exact absurd hdue (by simp)
  · exact fun y hy =>
      (h.othersSeated y hy).discard h.forest hrow (h.notMem_other hy (mem_tokens_seat ht))
  · rw [Tokens.count_discard]
    exact h.outside

/-! ### Operations -/

/-- An operation that has no race and nothing to post gives up its seat. -/
theorem finish (h : Fits A made base world boxes tokens clock x others) (hposts : x.posts = none)
    (hdue : x.due = none) :
    Fits A made base world boxes tokens clock { x with errand := none, seat := none } others := by
  have hsub : ({ x with errand := none, seat := none } : Share A.Charge).tokens + tokensOf others ≤
      x.tokens + tokensOf others := by
    refine add_le_add_left ?_ _
    simp only [Share.tokens, ofOption_none, zero_add]
    exact Multiset.le_add_left _ _
  refine ⟨h.ledger, h.mail, h.stopped, h.forest, Multiset.nodup_of_le hsub h.distinct,
    fun t ht => h.range t (Multiset.mem_of_le hsub ht), ⟨h.proper.1, nofun⟩, h.othersProper,
    ⟨nofun, ?_, ?_⟩, h.othersSeated, ?_, h.outside⟩
  · intro q hq
    rw [show x.posts = some q from hq] at hposts
    exact absurd hposts (by simp)
  · intro d hd
    rw [show x.due = some d from hd] at hdue
    exact absurd hdue (by simp)
  · rcases hx : x.errand with _ | e
    · have herrands := h.errands
      rw [hx] at herrands
      exact herrands
    · have herrands := h.errands
      rw [hx, ofOption_some, Multiset.singleton_add] at herrands
      rw [ofOption_none, zero_add]
      exact herrands.finish

/-- The tokens of an operation belong to no other. -/
theorem errand_notMem (h : Fits A made base world boxes tokens clock x others) {e : Errand}
    (he : x.errand = some e) {t : Token} (ht : t ∈ e.tokens) :
    ∀ e' ∈ errandsOf others, t ∉ e'.tokens := by
  intro e' he' hc
  have herrands := h.errands
  rw [he, ofOption_some, Multiset.singleton_add] at herrands
  have hne : e ≠ e' := fun heq =>
    (Multiset.nodup_cons.mp herrands.single).1 (heq ▸ he')
  have hmem : ∀ {f}, f = e ∨ f ∈ errandsOf others →
      f ∈ e ::ₘ errandsOf others + (ofOption x.timer + timersOf others) := fun hf =>
    Multiset.mem_add.mpr (Or.inl (Multiset.mem_cons.mpr hf))
  rcases herrands.apart e (hmem (Or.inl rfl)) e' (hmem (Or.inr he')) with heq | hdisj
  · exact hne heq
  · exact hdisj t ht hc

/-- A limited operation ends by cancelling a token of its own that says so. -/
theorem finishLimited (h : Fits A made base world boxes tokens clock x others)
    (hposts : x.posts = none) (hdue : x.due = none) {e : Errand} (he : x.errand = some e)
    {t : Token} (ht : e.ended = some t) {after : Tokens} (hc : Cut tokens t after)
    (hforest : after.Forest) :
    Fits A made base world boxes after clock { x with errand := none, seat := none } others := by
  refine (h.finish hposts hdue).cut hc hforest ?_
  intro e' he'
  rw [ofOption_none, zero_add] at he'
  exact h.errand_notMem he (Errand.mem_tokens.mpr (Or.inr (Or.inr ht))) e' he'

/-- A deadline has come. -/
theorem fire {e : Errand}
    (h : Fits A made base world boxes tokens clock { Share.nothing with timer := some e } others)
    {mid after : Tokens} (hlimit : e.interrupt.deadline.any (· ≤ clock) = true)
    (hc : Cut tokens e.interrupt.expired mid) (hc' : Cut mid e.interrupt.token after)
    (hmid : mid.Forest) (hafter : after.Forest) :
    Fits A made base world boxes after clock Share.nothing others := by
  have hcount : after.count = tokens.count := hc'.count.trans hc.count
  refine ⟨h.ledger, h.mail, ?_, hafter, h.distinct, ?_, ⟨nofun, nofun⟩, h.othersProper,
    ⟨nofun, nofun, nofun⟩, fun y hy => ((h.othersSeated y hy).cut hc).cut hc', ?_, ?_⟩
  · intro q hq hshut
    exact (hc'.isCancelled _).mpr (Or.inr ((hc.isCancelled _).mpr (Or.inr (h.stopped q hq hshut))))
  · rw [hcount]
    exact h.range
  · have herrands := h.errands
    simp only [Share.nothing, ofOption_none, ofOption_some, zero_add,
      Multiset.singleton_add] at herrands ⊢
    exact herrands.fire h.forest hmid hlimit hc hc'
  · rw [hcount]
    exact h.outside

/-- A deadline is not waited for any more. -/
theorem leave {e : Errand}
    (h : Fits A made base world boxes tokens clock { Share.nothing with timer := some e } others)
    (hover : tokens.isCancelled e.interrupt.token = true ∨
      ∃ t ∈ e.ended, tokens.isCancelled t = true) :
    Fits A made base world boxes tokens clock Share.nothing others := by
  refine ⟨h.ledger, h.mail, h.stopped, h.forest, h.distinct, h.range, ⟨nofun, nofun⟩, h.othersProper,
    ⟨nofun, nofun, nofun⟩, h.othersSeated, ?_, h.outside⟩
  have herrands := h.errands
  simp only [Share.nothing, ofOption_none, ofOption_some, zero_add,
    Multiset.singleton_add] at herrands ⊢
  exact herrands.leave hover

end Fits

/-- What somebody holds who has to release something, and nothing else. -/
def Share.ofCharges (charges : Multiset γ) : Share γ := ⟨none, none, none, none, none, charges⟩

/-- What somebody holds who waits for the deadline of an operation. -/
def Share.ofTimer (e : Errand) : Share γ := { Share.nothing with timer := some e }

/-- What an operation holds when it starts. -/
def Share.ofErrand (e : Errand) : Share γ :=
  { Share.nothing with errand := some e, seat := some e.interrupt.token }

namespace Fits

variable {world : K.World} {boxes : Array (InboxState (Except Error B.Handle))} {tokens : Tokens}
  {clock : Nat}

/-- What somebody has to release is given to somebody else. -/
theorem give (h : Fits A made base world boxes tokens clock x others) {charges rest : Multiset A.Charge}
    (hx : x.charges = charges + rest) :
    Fits A made base world boxes tokens clock { x with charges := rest }
      (Share.ofCharges charges ::ₘ others) := by
  refine ⟨?_, ?_, ?_, h.forest, ?_, ?_, ⟨h.proper.1, h.proper.2⟩, ?_,
    ⟨h.seated.row, h.seated.posts, h.seated.due⟩, ?_, ?_, h.outside⟩
  · refine (congrArg (A.Owes world) ?_).mpr h.ledger
    rw [chargesOf_cons, hx]
    show base + (rest + (charges + chargesOf others)) + _ = _
    ac_rfl
  · simpa [Share.ofCharges, Share.nothing] using h.mail
  · simpa [Share.ofCharges, Share.nothing] using h.stopped
  · simpa [Share.ofCharges, Share.nothing, Share.tokens] using h.distinct
  · simpa [Share.ofCharges, Share.nothing, Share.tokens] using h.range
  · exact Multiset.forall_mem_cons.mpr ⟨⟨nofun, nofun⟩, h.othersProper⟩
  · exact Multiset.forall_mem_cons.mpr ⟨⟨nofun, nofun, nofun⟩, h.othersSeated⟩
  · simpa [Share.ofCharges, Share.nothing] using h.errands

/-- A token under the signal, or under nothing, changes nothing for anybody. -/
theorem make (h : Fits A made base world boxes tokens clock x others) {parent : Option Token}
    (hparent : ∀ s ∈ parent, s < made) :
    Fits A made base world boxes (tokens.make parent).2 clock x others := by
  have hout : ∀ t, made ≤ t → parent ≠ some t := fun t ht hp =>
    absurd (hparent t hp) (Nat.not_lt_of_le ht)
  refine ⟨h.ledger, h.mail, h.stopped_make parent, h.forest.make parent, h.distinct, ?_, h.proper,
    h.othersProper, ?_, ?_, h.errands.make parent, ?_⟩
  · intro t ht
    rw [Tokens.count_make]
    exact ⟨(h.range t ht).1, Nat.lt_succ_of_lt (h.range t ht).2⟩
  · exact h.seated.make h.own_lt parent fun t ht => hout t (h.seat_range ht).1
  · intro y hy
    refine (h.othersSeated y hy).make (h.other_lt hy) parent fun t ht => hout t ?_
    exact (h.range t (Multiset.mem_add.mpr (Or.inr
      (Multiset.mem_bind.mpr ⟨y, hy, mem_tokens_seat ht⟩)))).1
  · rw [Tokens.count_make]
    exact Nat.le_succ_of_le h.outside

/-- Somebody who holds nothing sets out on an operation whose tokens are new; if it has a deadline,
somebody else waits for that. -/
theorem begin (h : Fits A made base world boxes tokens clock Share.nothing others) {e : Errand}
    {n : Nat} (hn : made ≤ n) (hnew : ∀ t ∈ e.tokens, n ≤ t ∧ t < tokens.count)
    (hold : ∀ t ∈ tokensOf others, t < n)
    (hold' : ∀ e' ∈ errandsOf others + timersOf others, ∀ t ∈ e'.tokens, t < n)
    (hbare : tokens.children e.interrupt.token = []) (hsound : e.Sound made tokens clock)
    {others' : Multiset (Share A.Charge)}
    (hothers : others' = others ∧ e.interrupt.deadline = none ∨
      others' = Share.ofTimer e ::ₘ others) :
    Fits A made base world boxes tokens clock (Share.ofErrand e) others' := by
  have htoken := hnew _ (Errand.mem_tokens.mpr (Or.inl rfl))
  have hsame : chargesOf others' = chargesOf others ∧ postsOf others' = postsOf others ∧
      duesOf others' = duesOf others ∧ tokensOf others' = tokensOf others ∧
      errandsOf others' = errandsOf others := by
    rcases hothers with ⟨rfl, -⟩ | rfl
    · exact ⟨rfl, rfl, rfl, rfl, rfl⟩
    · simp [Share.ofTimer, Share.nothing, Share.tokens]
  have htimers : timersOf others' = timersOf others ∧ e.interrupt.deadline = none ∨
      timersOf others' = e ::ₘ timersOf others := by
    rcases hothers with ⟨rfl, hnone⟩ | rfl
    · exact Or.inl ⟨rfl, hnone⟩
    · exact Or.inr (by simp [Share.ofTimer, Share.nothing])
  have hmem : ∀ y ∈ others', y = Share.ofTimer e ∨ y ∈ others := by
    rcases hothers with ⟨rfl, -⟩ | rfl
    · exact fun y hy => Or.inr hy
    · exact fun y hy => Multiset.mem_cons.mp hy
  obtain ⟨hcharges, hposts, hdues, htokens', herrands'⟩ := hsame
  have htokens : (Share.ofErrand e : Share A.Charge).tokens + tokensOf others' =
      e.interrupt.token ::ₘ tokensOf others := by
    simp [Share.tokens, Share.ofErrand, Share.nothing, htokens']
  have hdistinct := h.distinct
  have hrange := h.range
  simp only [Share.tokens, Share.nothing, Option.map_none, ofOption_none, zero_add] at hdistinct hrange
  refine ⟨?_, ?_, ?_, h.forest, ?_, ?_, ⟨nofun, ?_⟩, ?_, ⟨?_, nofun, nofun⟩, ?_, ?_, h.outside⟩
  · rw [hcharges]
    exact h.ledger
  · rw [hposts, hdues]
    exact h.mail
  · rw [hposts]
    exact h.stopped
  · rw [htokens]
    exact Multiset.nodup_cons.mpr
      ⟨fun hc => absurd htoken.1 (Nat.not_le_of_lt (hold _ hc)), hdistinct⟩
  · rw [htokens]
    exact Multiset.forall_mem_cons.mpr ⟨⟨Nat.le_trans hn htoken.1, htoken.2⟩, hrange⟩
  · intro e' he'
    obtain rfl := Option.some.inj he'
    rfl
  · intro y hy
    rcases hmem y hy with rfl | hy
    · exact ⟨nofun, nofun⟩
    · exact h.othersProper y hy
  · intro t ht u hu
    obtain rfl : e.interrupt.token = t := Option.some.inj ht
    have hchild := Tokens.mem_children_of_mem_row hu
    rw [hbare] at hchild
    exact absurd hchild (by simp)
  · intro y hy
    rcases hmem y hy with rfl | hy
    · exact ⟨nofun, nofun, nofun⟩
    · exact h.othersSeated y hy
  · have herrands := h.errands
    simp only [Share.nothing, Share.ofErrand, ofOption_none, ofOption_some, zero_add,
      Multiset.singleton_add, herrands'] at herrands ⊢
    refine herrands.start hsound (fun t ht => ⟨Nat.le_trans hn (hnew t ht).1, (hnew t ht).2⟩) ?_ htimers
    exact fun e' he' t ht hc => absurd (hnew t hc).1 (Nat.not_le_of_lt (hold' e' he' t ht))

end Fits

/-! ### Time -/

theorem Balanced.wait {shares : Multiset (Share A.Charge)} (h : Balanced A made base tl shares)
    {time : Nat} (hle : tl.clock ≤ time)
    (hlimit : ∀ e ∈ errandsOf shares, 0 < e.interrupt.timeout →
      time ≤ e.began + e.interrupt.timeout) :
    Balanced A made base { tl with clock := time } shares :=
  ⟨h.ledger, h.mail, h.stopped, h.forest, h.distinct, h.range, h.proper, h.seated,
    h.errands.wait hle hlimit, h.outside⟩

end Wayfind.Keeping
