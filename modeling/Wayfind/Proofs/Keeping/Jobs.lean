/-
The background work of locators leaves nothing behind.

Each job starts with a share (`Share.Starts`) and ends without one: a branch posts what it
found, or releases it where the race was given up; a drain takes what nobody else will
take; and whoever waits for a deadline cancels the operation or finds that it need not.
-/
import Wayfind.Proofs.Keeping.Finding

namespace Wayfind.Keeping

open Activity (Token Inbox Tokens Request Duty Role Timeline)
open Activity.Timeline (watched)
open PageSide (Action)

variable {B : PageSide} {K : Activity.Backend B.signature} {b : Browser B} {C : Custody K b}
  {σ : Station C} {x : Share C.Charge} {α β : Type}

/-! ### The first request -/

/-- The action does not succeed at once, and nothing interrupts its first request. -/
def Fresh (a : B.Action α) : Prop := watched a.outcome = [] ∧ ∀ v, a.outcome ≠ .done (.ok v)

theorem Fresh.bind {a : B.Action α} (h : Fresh a) (f : α → B.Action β) : Fresh (a >>= f) := by
  unfold Fresh
  rw [outcome_bind]
  obtain ⟨hwatched, hdone⟩ := h
  rcases hp : a.outcome with r | ⟨r, ws, duties, next, stop⟩
  · cases r with
    | ok v => exact absurd hp (hdone v)
    | error e => exact ⟨rfl, nofun⟩
  · rw [hp] at hwatched
    exact ⟨hwatched, nofun⟩

theorem fresh_guard (i : Interrupt) (a : B.Action α) : Fresh (i.guard a) := ⟨rfl, nofun⟩

theorem fresh_remaining_bind (i : Interrupt) {f : Nat → B.Action β} (h : ∀ ms, Fresh (f ms)) :
    Fresh (i.remaining >>= f) := by
  unfold Interrupt.remaining
  split
  · exact h 0
  · exact Fresh.bind ⟨rfl, nofun⟩ f

/-- An action whose first request is not interrupted. -/
theorem fresh_of_ask {a : B.Action α} {r : Request B.signature} {duties : List (Duty B.signature)}
    {next : r.Answer → B.Task (Except Error α)}
    {stop : (t : Token) → t ∈ ([] : List Token) → B.Task (Except Error α)}
    (h : a.outcome = .ask r [] duties next stop) : Fresh a :=
  ⟨by rw [h]; rfl, by simp [h]⟩

theorem fresh_of_error {a : B.Action α} {e : Error} (h : a.outcome = .done (.error e)) : Fresh a :=
  ⟨by rw [h]; rfl, by simp [h]⟩

theorem fresh_resolve (b : Browser B) (i : Interrupt) : ∀ l : Locator B.Page, Fresh (l.resolve b i)
  | .node o _ selector => by
    unfold Locator.resolve
    exact fresh_remaining_bind i fun ms => (fresh_guard i _).bind _
  | .function _ _ script => by
    unfold Locator.resolve
    exact fresh_remaining_bind i fun ms => fresh_guard i _
  | .filtered o inner predicate => by
    unfold Locator.resolve
    exact (fresh_resolve b i inner).bind _
  | .mapped _ inner mapper => by
    unfold Locator.resolve
    exact (fresh_resolve b i inner).bind _
  | .race _ branches => by
    unfold Locator.resolve Race.run
    split
    · exact fresh_of_error rfl
    · exact (fresh_of_ask rfl).bind _

theorem watched_bind {p : B.Task α} {f : α → B.Task β} (h : watched p = [])
    (hf : ∀ a, watched (f a) = []) : watched (Activity.bind p f) = [] := by
  cases p with
  | done a => exact hf a
  | ask r ws duties next stop => exact h

/-- Nothing interrupts a job that has not begun. -/
theorem watched_start {made : Nat} {job : Job B.Handle B.Page B.Chore}
    (h : Share.Starts C made job x) : watched (K.start job) = [] := by
  rw [C.start]
  cases h with
  | release h => exact C.calm h
  | expire e ended deadline hended hd =>
    show watched (e.interrupt.expire ended : B.Task Unit) = []
    unfold Interrupt.expire
    rw [hd]
    rfl
  | branch l i inbox race => exact watched_bind (fresh_resolve b i l).1 fun _ => rfl
  | drain inbox race count => cases count <;> rfl
  | cancelAt time t ht => rfl
  | chore c hc =>
    obtain ⟨time, p, hp, -⟩ := C.chores c hc
    show watched (C.ofChore c) = []
    rw [hp]
    rfl

/-! ### Branches and drains -/

/-- What is expected of a job: it leaves nothing behind. -/
abbrev Leaves (σ : Station C) : Post C Unit := fun _ others tl => σ.Holds tl others

section Jobs

variable {tl : Timeline B.signature K.World} {others : Multiset (Share C.Charge)}
  (hrole : σ.role = .background)

include hrole

theorem seeks_ofBranch (t : Token) (inbox : Inbox) (race : Token) :
    (Share.ofBranch t inbox race : Share C.Charge).Seeks σ t :=
  ⟨rfl, rfl, Or.inr rfl, rfl, fun _ => rfl, fun hf => nomatch hrole.symm.trans hf⟩

/-- A wait in the background. -/
theorem goes_wait_background {r : Request B.signature} {watched : List Token}
    {duties : List (Duty B.signature)} {Q : Post C β} {next : r.Answer → B.Task β}
    {stop : (t : Token) → t ∈ watched → B.Task β} (hparked : x.Parked .background r watched)
    (hwatch : ∀ t ∈ watched, t < tl.tokens.count ∧ tl.isCancelled t = false)
    (hholds : σ.Holds tl (x ::ₘ others)) (hjobs : ∀ tl, Timeline.jobsOf K tl r = [])
    (hstop : ∀ after others' t h, σ.Holds after (x ::ₘ others') →
      after.isCancelled t = true → Goes σ Q (stop t h) others' after)
    (hnext : ∀ after others' a later, σ.Holds after (x ::ₘ others') →
      Timeline.perform K after r = some (a, later) → Goes σ Q (next a) others' later) :
    Goes σ Q (.ask r watched duties next stop) others tl :=
  goes_wait (hrole ▸ hparked) (fun hf => nomatch hrole.symm.trans hf) hwatch hholds hjobs
    (fun after others' t h _ => hstop after others' t h)
    fun after others' a later _ hheld _ hp => hnext after others' a later hheld hp

/-- A request that waits, with no token watched, and what follows. -/
theorem goes_sit {r : Request B.signature} {Q : Post C β} {f : r.Answer → B.Task β}
    (hparked : x.Parked .background r []) (hholds : σ.Holds tl (x ::ₘ others))
    (hjobs : ∀ tl, Timeline.jobsOf K tl r = [])
    (hnext : ∀ after others' a later, σ.Holds after (x ::ₘ others') →
      Timeline.perform K after r = some (a, later) → Goes σ Q (f a) others' later) :
    Goes σ Q (Activity.bind (Activity.perform r) f) others tl := by
  rw [Activity.bind_perform]
  exact goes_wait_background hrole hparked nofun hholds hjobs nofun hnext

omit hrole in
/-- What is posted to a race arrives, unless the race was given up. -/
theorem Balanced.post (hb : σ.Holds tl (x ::ₘ others)) {inbox : Inbox} {race : Token}
    (hposts : x.posts = some (inbox, race)) {m : Except Error B.Handle} {rest : Multiset C.Charge}
    (hx : x.charges = C.chargeOf m + rest) :
    ∃ accepted after, tl.post inbox m = (accepted, after) ∧
      σ.Holds after ({ x with
        posts := none, charges := if accepted then rest else x.charges } ::ₘ others) := by
  have hfits := balanced_cons.mp hb
  have hmade : inbox < (boxes tl).size := by
    refine hfits.mail.made (inbox, race) ?_
    rw [hposts]
    simp
  obtain ⟨s, hs⟩ := exists_inbox hmade
  rcases hshut : shut (boxes tl) inbox with _ | _
  · have haccepts : (boxes tl)[inbox]?.any (fun s => !s.closed) = true := by
      rw [shut, hs, Option.any_some] at hshut
      rw [hs, Option.any_some, hshut]
      rfl
    unfold Timeline.post
    exact ⟨true, _, if_pos haccepts, balanced_cons.mpr (hfits.post hposts hshut hx)⟩
  · have hrejects : ¬ (boxes tl)[inbox]?.any (fun s => !s.closed) = true := by
      rw [shut, hs, Option.any_some] at hshut
      rw [hs, Option.any_some, hshut]
      exact Bool.false_ne_true
    unfold Timeline.post
    exact ⟨false, tl, if_neg hrejects, balanced_cons.mpr (hfits.reject hposts hshut)⟩

theorem goes_branch (l : Locator B.Page) (i : Interrupt) (inbox : Inbox) (race : Token)
    (hb : σ.Holds tl (.ofBranch i.token inbox race ::ₘ others)) :
    Goes σ (Leaves σ) (l.runBranch b i inbox) others tl := by
  refine goes_bind.mpr ?_
  refine (finds_resolve i l _ (seeks_ofBranch hrole i.token inbox race) tl others hb).mono ?_
  rintro found others tl ⟨y, rfl, hb⟩
  obtain ⟨accepted, after, hpost, hposted⟩ := Balanced.post hb rfl (rfl : _ = C.chargeOf found + 0)
  refine (goes_perform (r := .post inbox found) (congrArg some hpost) rfl).mpr ?_
  have hend : ∀ tl, σ.Holds tl ({ Share.nothing with seat := some i.token } ::ₘ others) →
      Goes σ (Leaves σ) (Activity.bind (Activity.perform (.discard i.token)) .done) others tl := by
    intro tl hb
    refine goes_discard.mpr ?_
    have hdiscarded := (balanced_cons.mp hb).discard rfl rfl rfl rfl
    exact Balanced.cons_nothing.mp (balanced_cons.mpr hdiscarded)
  cases accepted with
  | true =>
    cases found with
    | ok handle => exact hend after hposted
    | error e => exact hend after hposted
  | false =>
    cases found with
    | ok handle => exact goes_release hposted rfl fun w hw => hend _ hw
    | error e => exact hend after hposted

/-- What a drain holds: the messages it has still to take. -/
abbrev Share.ofDrain {γ : Type} (inbox : Inbox) (race : Token) (count : Nat) : Share γ :=
  { Share.nothing with due := some ⟨inbox, race, count⟩ }

omit hrole in
theorem parked_ofDrain (inbox : Inbox) (race : Token) (count : Nat) :
    (Share.ofDrain inbox race (count + 1) : Share C.Charge).Parked (B := B)
      .background (.take inbox) [] := by
  refine ⟨?_, fun _ _ => rfl, nofun, nofun, fun _ => rfl, nofun, fun _ => rfl⟩
  intro d hd
  obtain rfl := Option.some.inj hd
  exact ⟨rfl, Nat.succ_pos count⟩

theorem goes_drain (inbox : Inbox) (race : Token) (count : Nat)
    (hb : σ.Holds tl (.ofDrain inbox race count ::ₘ others)) :
    Goes σ (Leaves σ) (Race.drain b.realm inbox count) others tl := by
  induction count generalizing tl others with
  | zero =>
    have hfits := balanced_cons.mp hb
    have hc : tl.tokens.isCancelled race = true := by
      rcases hfits.seated.due _ rfl with hc | ⟨t, ht, -⟩
      · exact hc
      · exact absurd ht (by simp [Share.nothing])
    exact Balanced.cons_nothing.mp (balanced_cons.mpr (hfits.closeRace rfl hc))
  | succ count ih =>
    refine goes_sit hrole (parked_ofDrain inbox race count) hb (fun _ => rfl) ?_
    intro after others' m later hheld hp
    obtain ⟨rest, hm, rfl⟩ := eq_of_take hp
    have htaken : σ.Holds (after.modifyInbox inbox fun s => { s with messages := rest })
        ({ Share.ofDrain inbox race count with charges := C.chargeOf m + 0 } ::ₘ others') :=
      balanced_cons.mpr ((balanced_cons.mp hheld).take rfl hm)
    cases m with
    | ok handle => exact goes_release htaken rfl fun w hw => ih hw
    | error e => exact ih htaken

/-! ### Deadlines -/

omit hrole in
theorem goes_unlessCancelled {Q : Post C β} {t : Token} {halt p : B.Task β}
    (hhalt : tl.isCancelled t = true → Goes σ Q halt others tl)
    (hgo : tl.isCancelled t = false → Goes σ Q (Activity.guard t halt p) others tl) :
    Goes σ Q (Activity.unlessCancelled t halt p) others tl := by
  refine goes_isCancelled.mpr ?_
  rcases hc : tl.isCancelled t with _ | _
  · exact hgo hc
  · exact hhalt hc

section Timer

variable {A : Account K} {made : Nat} {base : Multiset A.Charge}
  {others : Multiset (Share A.Charge)} {e : Errand}

omit hrole

/-- The tokens of an operation whose deadline is waited for exist. -/
theorem Balanced.timer_lt (hb : Balanced A made base tl (.ofTimer e ::ₘ others)) :
    ∀ t ∈ e.tokens, t < tl.tokens.count := fun t ht =>
  (hb.errands.range e (by simp [Share.ofTimer]) t ht).2

/-- Whoever waits for a deadline may leave when the operation was cancelled or has ended. -/
theorem Balanced.leave (hb : Balanced A made base tl (.ofTimer e ::ₘ others))
    (hover : tl.tokens.isCancelled e.interrupt.token = true ∨
      ∃ t ∈ e.ended, tl.tokens.isCancelled t = true) : Balanced A made base tl others :=
  Balanced.cons_nothing.mp (balanced_cons.mpr ((balanced_cons.mp hb).leave hover))

/-- When the time is over, the token that says so is cancelled, and then the operation's. -/
theorem Balanced.fire (hb : Balanced A made base tl (.ofTimer e ::ₘ others))
    (hlimit : e.interrupt.deadline.any (· ≤ tl.clock) = true) :
    Balanced A made base ((tl.cancel e.interrupt.expired).cancel e.interrupt.token) others := by
  have hmid := Timeline.cancel_forest hb.forest e.interrupt.expired
  have hafter := Timeline.cancel_forest hmid e.interrupt.token
  have hfired := (balanced_cons.mp hb).fire hlimit (cut_cancel tl e.interrupt.expired)
    (cut_cancel _ e.interrupt.token) hmid hafter
  have hsame := (Timeline.cancel_sameBut tl e.interrupt.expired).trans
    (Timeline.cancel_sameBut _ e.interrupt.token)
  have hboxes : boxes ((tl.cancel e.interrupt.expired).cancel e.interrupt.token) = boxes tl :=
    hsame.inboxes
  refine Balanced.cons_nothing.mp (balanced_cons.mpr ?_)
  rw [hsame.world, hsame.clock, hboxes]
  exact hfired

end Timer

theorem goes_expire {e : Errand} {ended : Token} {deadline : Nat} (hended : e.ended = some ended)
    (hd : e.interrupt.deadline = some deadline) (hb : σ.Holds tl (.ofTimer e ::ₘ others)) :
    Goes σ (Leaves σ) (e.interrupt.expire ended) others tl := by
  unfold Interrupt.expire
  rw [hd]
  refine goes_bind.mpr ?_
  set Q : Post C Bool := fun reached others tl => Goes σ (Leaves σ)
      (if reached = true then do
        let () ← Activity.perform (.cancel e.interrupt.expired)
        Activity.perform (.cancel e.interrupt.token)
      else pure ()) others tl
  have hleave : ∀ others tl, σ.Holds tl (.ofTimer e ::ₘ others) →
      (tl.tokens.isCancelled e.interrupt.token = true ∨ tl.tokens.isCancelled ended = true) →
      Goes σ Q (.done false) others tl := by
    intro others tl hb hover
    exact hb.leave (hover.imp_right fun hc => ⟨ended, hended, hc⟩)
  have hwatch : ∀ others tl, σ.Holds tl (.ofTimer e ::ₘ others) →
      ended < tl.tokens.count ∧ e.interrupt.token < tl.tokens.count := fun others tl hb =>
    ⟨hb.timer_lt ended (Errand.mem_tokens.mpr (Or.inr (Or.inr hended))),
      hb.timer_lt _ (Errand.mem_tokens.mpr (Or.inl rfl))⟩
  refine goes_unlessCancelled (fun hc => hleave others tl hb (Or.inr hc)) fun hlive => ?_
  have hinner : ∀ cancelled, tl.isCancelled e.interrupt.token = cancelled →
      Goes σ Q (Activity.guard ended (.done false)
        (if cancelled = true then .done false
        else Activity.guard e.interrupt.token (.done false) do
          let () ← Activity.perform (.sleepUntil deadline)
          return true)) others tl := by
    intro cancelled hc
    cases cancelled with
    | true => exact hleave others tl hb (Or.inl hc)
    | false =>
      refine goes_wait_background hrole ?_ ?_ hb (fun _ => rfl) ?_ ?_
      · refine ⟨nofun, nofun, nofun, nofun, fun _ => rfl, ?_, fun _ => rfl⟩
        intro e' he'
        obtain rfl := Option.some.inj he'
        exact ⟨deadline, hd, rfl⟩
      · intro t ht
        rcases List.mem_cons.mp ht with rfl | ht
        · exact ⟨(hwatch others tl hb).1, hlive⟩
        · obtain rfl := List.mem_singleton.mp ht
          exact ⟨(hwatch others tl hb).2, hc⟩
      · intro after others' t ht hheld hct
        by_cases hsame : t = ended
        · rw [dif_pos hsame]
          exact hleave others' after hheld (Or.inr (hsame ▸ hct))
        · rw [dif_neg hsame]
          have ht' : t = e.interrupt.token := by simpa [hsame] using ht
          beta_reduce
          rw [dif_pos ht']
          exact hleave others' after hheld (Or.inl (ht' ▸ hct))
      · intro after others' a later hheld hp
        cases Timeline.performs hp with
        | sleepUntil htime =>
          refine goes_cancel.mpr ((goes_ask rfl rfl).mpr ?_)
          refine hheld.fire ?_
          rw [hd]
          simpa using htime
  exact (goes_ask rfl rfl).mpr (hinner _ rfl)

/-! ### From outside -/

omit hrole in
theorem parked_nothing (role : Role) {r : Request B.signature} (hr : ∀ inbox, r ≠ .take inbox) :
    (Share.nothing : Share C.Charge).Parked role r [] :=
  ⟨nofun, fun inbox htake => absurd htake (hr inbox), nofun, nofun, fun _ => rfl, nofun, fun _ => rfl⟩

/-- Who holds nothing may sleep, and goes on with whatever it finds then. -/
theorem goes_sleep {Q : Post C β} {time : Nat} {f : Unit → B.Task β} (hb : σ.Holds tl others)
    (hnext : ∀ after others', σ.Holds after others' → Goes σ Q (f ()) others' after) :
    Goes σ Q (Activity.bind (Activity.perform (.sleepUntil time)) f) others tl := by
  refine goes_sit hrole (parked_nothing _ nofun) (Balanced.cons_nothing.mpr hb) (fun _ => rfl) ?_
  intro after others' a later hheld hp
  cases Timeline.performs hp with
  | sleepUntil => exact hnext after others' (Balanced.cons_nothing.mp hheld)

omit hrole in
/-- To cancel a token from before upsets nobody. -/
theorem Balanced.cancelOutside (hb : σ.Holds tl others) {t : Token} (ht : t < σ.made) :
    σ.Holds (tl.cancel t) others := by
  have hfits := balanced_cons.mp (Balanced.cons_nothing.mpr hb)
  refine Balanced.cons_nothing.mp (balanced_cancel.mpr ?_)
  exact hfits.cut (cut_cancel tl t) (Timeline.cancel_forest hb.forest t)
    (hfits.errands.outside_notMem ht)

theorem goes_cancelAt (time : Nat) {t : Token} (ht : t < σ.made) (hb : σ.Holds tl others) :
    Goes σ (Leaves σ) (Job.activity b C.ofChore (.cancelAt time t)) others tl := by
  refine goes_sleep hrole hb fun after others' hb' => ?_
  exact (goes_ask rfl rfl).mpr (Balanced.cancelOutside hb' ht)

theorem goes_chore {c : B.Chore} (hc : C.Expected c) (hb : σ.Holds tl others) :
    Goes σ (Leaves σ) (C.ofChore c) others tl := by
  obtain ⟨time, p, hp, hprompt⟩ := C.chores c hc
  rw [hp]
  refine goes_sleep hrole hb fun after others' hb' => ?_
  have hfits := balanced_cons.mp (Balanced.cons_nothing.mpr hb')
  refine goes_prompt (hprompt _ _ hfits.ledger) fun _ w hw => ?_
  exact Balanced.cons_nothing.mp (balanced_cons.mpr (hfits.ask hw))

/-- Every job leaves the shares of the others balanced, and nothing of its own. -/
theorem goes_start {job : Job B.Handle B.Page B.Chore} (h : Share.Starts C σ.made job x)
    (hb : σ.Holds tl (x ::ₘ others)) : Goes σ (Leaves σ) (K.start job) others tl := by
  rw [C.start]
  cases h with
  | release h =>
    refine (congrArg (fun p => Goes σ (Leaves σ) p others tl) (Activity.bind_done _)).mp ?_
    exact goes_release hb (add_zero _).symm fun w hw => Balanced.cons_nothing.mp hw
  | expire e ended deadline hended hd => exact goes_expire hrole hended hd hb
  | branch l i inbox race => exact goes_branch hrole l i inbox race hb
  | drain inbox race count => exact goes_drain hrole inbox race count hb
  | cancelAt time t ht => exact goes_cancelAt hrole time ht (Balanced.cons_nothing.mp hb)
  | chore c hc => exact goes_chore hrole hc (Balanced.cons_nothing.mp hb)

end Jobs

end Wayfind.Keeping
