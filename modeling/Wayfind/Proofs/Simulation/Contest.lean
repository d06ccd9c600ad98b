/-
An operation that holds a race.

A `Contest` races its branches once, under the token of an operation with a time limit and a
signal, and looks at that token when the race has returned.  It comes to wait for one message
from each branch (`opens`), reads what has come and ends with what the race came to, or waits for
the rest (`hears`).  `Standing` says all that of a whole tale, and `standing_of_tale` that it is so.
-/
import Wayfind.Proofs.Keeping.Settling
import Wayfind.Proofs.Simulation.Racing
import Wayfind.Proofs.Simulation.Releases

namespace Wayfind.Simulation

open Activity (Token Inbox Request Duty Timeline Crowd Tale Exchange Comes Aloof Closed sentTo takenFrom Sound)
open Activity.Timeline (perform advance resume runTask trail onward taskTrail canResume)
open Keeping (Errand Station Goes Keeps keeping)
open PageSide (Action)

variable {patience : Nat} {α β : Type}

/-- An operation that races once. -/
structure Contest where
  branches : List (Locator side.Page)
  /-- The time it has, in milliseconds; zero for no limit. -/
  timeout : Nat
  /-- The signal goes with it. -/
  signalled : Bool

namespace Contest

/-- The signal of the operation. -/
def signal (c : Contest) : Option Token := if c.signalled then some Keeping.signal else none

/-- What the operation does under its token. -/
def body (c : Contest) (i : Interrupt) : side.Action (Except Error Handle × Bool) := do
  let outcome ← (Race.run (B := side) c.branches i).attempt
  let cancelled ← Action.isCancelled i.token
  return (outcome, cancelled)

/-- The operation: what the race came to, and whether its own token was cancelled then. -/
def activity (c : Contest) : side.Task (Except Error (Except Error Handle × Bool)) :=
  (Interrupt.within c.timeout c.signal c.body).outcome

theorem signal_lt (c : Contest) : ∀ s ∈ c.signal, s < 1 := by
  intro s hs
  unfold signal at hs
  split at hs
  · rw [← Option.some.inj hs]
    exact Nat.one_pos
  · exact absurd hs (by simp)

end Contest

/-! ### Everything is accounted for -/

/-- The handle that an operation hands on. -/
def won : Except Error (Except Error Handle × Bool) → Multiset Nat
  | .ok (outcome, _) => handleOf outcome
  | .error _ => 0

/-- The operation was cancelled by its deadline or its signal. -/
def Overtaken {World : Type} (timeout : Nat) (signal : Option Token) (began : Nat)
    (tl : Timeline side.signature World) : Prop :=
  (0 < timeout ∧ tl.clock = began + timeout) ∨ ∃ s ∈ signal, tl.tokens.isCancelled s = true

/-- The operation ends with what the race came to, and was cancelled only if it was overtaken. -/
def Contest.Ends {World : Type} (c : Contest) (began : Nat)
    (r : Except Error (Except Error Handle × Bool)) (tl : Timeline side.signature World) : Prop :=
  ∃ outcome cancelled, r = .ok (outcome, cancelled) ∧
    (cancelled = true → Overtaken c.timeout c.signal began tl)

section Sound

variable {base : Multiset Nat}

theorem Contest.Ends.cancel {World : Type} {c : Contest} {began : Nat}
    {r : Except Error (Except Error Handle × Bool)} {tl : Timeline side.signature World}
    (h : c.Ends began r tl) (t : Token) : c.Ends began r (tl.cancel t) := by
  obtain ⟨outcome, cancelled, hr, hover⟩ := h
  refine ⟨outcome, cancelled, hr, fun hc => ?_⟩
  rcases hover hc with ⟨hpos, htime⟩ | ⟨s, hs, hsignal⟩
  · exact Or.inl ⟨hpos, (Timeline.cancel_sameBut tl t).clock.trans htime⟩
  · exact Or.inr ⟨s, hs, (Timeline.isCancelled_cancel tl t s).mpr (Or.inr hsignal)⟩

variable {σ : Station (books_recording patience base).custody}
  {tl : Timeline side.signature (recording patience).World} {others : Multiset (Keeping.Share Nat)}

/-- Under its token the operation keeps nothing but the handle of the winner. -/
theorem goes_body (hrole : σ.role = .foreground) (haround : σ.around = []) (c : Contest) {e : Errand}
    {began : Nat} (hstarted : e.Started c.timeout c.signal began)
    (hb : σ.Holds tl (.ofErrand e ::ₘ others)) :
    Goes (σ.inside e) (fun r others after =>
        σ.Holds after (.carrying e (won r) ::ₘ others) ∧ c.Ends began r after)
      (c.body e.interrupt).outcome others tl := by
  have hrace := Keeping.finds_race c.branches e.interrupt _
    (Keeping.seeks_ofErrand (e := e) hrole haround) tl others hb
  unfold Contest.body
  rw [outcome_attempt_bind]
  refine Keeping.goes_bind.mpr (hrace.mono ?_)
  rintro outcome others after ⟨y, rfl, hb⟩
  refine (outcome_perform_bind _ _) ▸ Keeping.goes_isCancelled.mpr ?_
  have hcarried : σ.Holds after
      (.carrying e (won (.ok (outcome, after.isCancelled e.interrupt.token))) ::ₘ others) := by
    have hcharges : (books_recording patience base).custody.chargeOf outcome + 0 = handleOf outcome :=
      (add_zero _).trans (chargeOf_account outcome)
    show σ.Holds after (.carrying e (handleOf outcome) ::ₘ others)
    rw [← hcharges]
    exact hb
  refine ⟨hcarried, outcome, _, rfl, fun hc => ?_⟩
  rcases (Keeping.Balanced.sound hcarried).interrupted hc with ⟨-, hpos, hclock⟩ | ⟨-, hsignal⟩
  · rw [hstarted.timeout] at hpos
    rw [hstarted.timeout, hstarted.began] at hclock
    exact Or.inl ⟨hpos, hclock⟩
  · exact Or.inr (hstarted.signal ▸ hsignal)

variable (patience) in
/-- An operation that races keeps the discipline. -/
theorem sound_contest (c : Contest) (base : Multiset Nat) :
    Sound (keeping (books_recording patience base).custody 1 base) (fun _ : Unit => c.activity)
      (Keeps won) fun _ => c.Ends := by
  refine Keeping.sound fun _ {tl others} hb => ?_
  exact Keeping.goes_within (C := (books_recording patience base).custody)
    (σ := ⟨.foreground, 1, base, []⟩) c.signal_lt (fun r tl t h => h.cancel t) hb
    fun e after others hstarted _ hb => goes_body rfl rfl c hstarted hb

end Sound

/-! ### Messages still to come, as a recorded page has it -/

section Recorded

variable {k : Inbox} {tl after : Timeline side.signature (recording patience).World}

theorem perform_recorded {r : Request side.signature} {a : r.Answer}
    (hp : perform (recording patience) tl r = some (a, after)) :
    perform (backend patience) tl.forget r = some (a, after.forget) := by
  rw [Timeline.perform_forget, hp]
  rfl

theorem traffic_forget (tl : Timeline side.signature (recording patience).World) :
    traffic k tl.forget = traffic k tl := by
  have hmessages : tl.forget.messages k = tl.messages k := rfl
  have hbag : tl.forget.bag = tl.bag := rfl
  unfold traffic
  rw [hmessages, hbag]

theorem traffic_recorded {r : Request side.signature} {a : r.Answer}
    (hp : perform (recording patience) tl r = some (a, after)) :
    traffic k after ≤ traffic k tl + postage k r := by
  rw [← traffic_forget, ← traffic_forget tl]
  exact perform_traffic (perform_recorded hp)

theorem runTask_recorded {n : ℕ} (id : Nat) (hk : k < tl.inboxes.size) (h : traffic k tl ≤ n) :
    traffic k (runTask (recording patience) tl id) ≤ n := by
  rw [← traffic_forget] at h ⊢
  rw [← Timeline.runTask_forget]
  exact (runTask_traffic id (Or.inl hk) h).1

end Recorded

/-! ### Listening to a race -/

/-- What a race comes to. -/
def prize : Except (Option Error) (Handle × Nat) → Except Error Handle
  | .ok (handle, _) => .ok handle
  | .error last => .error (last.getD (.elementNotFound "race produced no handle"))

/-- The activity waits for so many messages of a race, and makes at once something of what the race
comes to. -/
def Listens (patience : Nat) (k : Inbox) (n : Nat) (Q : Except Error Handle → α → Prop)
    (p : side.Task α) : Prop :=
  ∃ (duties : List (Duty side.signature)) (last : Option Error)
    (rest : Except Error (Except (Option Error) (side.Handle × Nat)) → side.Task α),
    p = Activity.bind (Activity.protect duties (Race.firstHandle (B := side) k n last).outcome) rest ∧
    (∀ winner tl, ∃ said a after,
      Comes (recording patience) (rest (.ok winner)) tl said (.done a) after ∧ Q (prize winner) a) ∧
    ∀ last, Silent k (rest (.ok (.error last)))

section Listening

variable {k : Inbox} {n : Nat} {Q : Except Error Handle → α → Prop} {p : side.Task α}

theorem protect_bind (duties : List (Duty side.signature)) (p : side.Task α) (f : α → side.Task β) :
    Activity.protect duties (Activity.bind p f) =
      Activity.bind (Activity.protect duties p) fun a => Activity.protect duties (f a) := by
  induction p with
  | done a => rfl
  | ask r ws own next stop ihn ihs => simp only [Activity.bind, Activity.protect, ihn, ihs]

theorem protect_protect (duties around : List (Duty side.signature)) (p : side.Task α) :
    Activity.protect around (Activity.protect duties p) = Activity.protect (duties ++ around) p := by
  induction p with
  | done a => rfl
  | ask r ws own next stop ihn ihs => simp only [Activity.protect, ihn, ihs, List.append_assoc]

theorem Listens.bind {Q' : Except Error Handle → β → Prop} {f : α → side.Task β}
    (h : Listens patience k n Q p)
    (hf : ∀ r a tl, Q r a → ∃ said b after,
      Comes (recording patience) (f a) tl said (.done b) after ∧ Q' r b)
    (hsilent : ∀ a, Silent k (f a)) : Listens patience k n Q' (Activity.bind p f) := by
  obtain ⟨duties, last, rest, rfl, hends, hquiet⟩ := h
  refine ⟨duties, last, fun w => Activity.bind (rest w) f, Activity.bind_assoc _ _ _, ?_,
    fun last => (hquiet last).bind hsilent⟩
  intro winner tl
  obtain ⟨said, a, mid, hcomes, hq⟩ := hends winner tl
  obtain ⟨more, b, after, hcomes', hq'⟩ := hf _ a mid hq
  exact ⟨said ++ more, b, after, (hcomes.bind f).trans hcomes', hq'⟩

theorem Listens.protect (h : Listens patience k n Q p) (around : List (Duty side.signature)) :
    Listens patience k n Q (Activity.protect around p) := by
  obtain ⟨duties, last, rest, rfl, hends, hquiet⟩ := h
  refine ⟨duties ++ around, last, fun w => Activity.protect around (rest w), ?_, ?_,
    fun last => (hquiet last).protect around⟩
  · rw [protect_bind, protect_protect]
  · intro winner tl
    obtain ⟨said, a, after, hcomes, hq⟩ := hends winner tl
    exact ⟨said, a, after, hcomes.protect around, hq⟩

end Listening

/-! ### To the first wait -/

/-- The activity goes on as another one, and on the way neither reads from the inbox nor closes it. -/
def Approaches (patience : Nat) (k : Inbox) (p : side.Task α)
    (tl : Timeline side.signature (recording patience).World) (q : side.Task α)
    (after : Timeline side.signature (recording patience).World) : Prop :=
  ∃ said, Comes (recording patience) p tl said q after ∧ Aloof k said

section Opening

variable {k : Inbox} {tl mid after : Timeline side.signature (recording patience).World}

theorem comes_request {r : Request side.signature} {a : r.Answer} {f : r.Answer → side.Action β}
    {q : side.Task (Except Error β)} {said : List (Exchange side.signature)}
    (hp : perform (recording patience) tl r = some (a, mid))
    (h : Comes (recording patience) (f a).outcome mid said q after) :
    Comes (recording patience) (Action.perform r >>= f).outcome tl (⟨r, a⟩ :: said) q after := by
  rw [outcome_perform_bind]
  exact .answered hp h

theorem approaches_request {r : Request side.signature} {a : r.Answer} {f : r.Answer → side.Action β}
    {q : side.Task (Except Error β)} (hp : perform (recording patience) tl r = some (a, mid))
    (hr : postage k r ≠ ⊤) (h : Approaches patience k (f a).outcome mid q after) :
    Approaches patience k (Action.perform r >>= f).outcome tl q after := by
  obtain ⟨said, hcomes, haloof⟩ := h
  exact ⟨_, comes_request hp hcomes,
    (Activity.aloof_cons k said _).mpr ⟨not_reads_of_postage hr a, haloof⟩⟩

theorem Approaches.bind {p q : side.Task α} (h : Approaches patience k p tl q after)
    (f : α → side.Task β) :
    Approaches patience k (Activity.bind p f) tl (Activity.bind q f) after := by
  obtain ⟨said, hcomes, haloof⟩ := h
  exact ⟨said, hcomes.bind f, haloof⟩

theorem Approaches.protect {p q : side.Task α} (h : Approaches patience k p tl q after)
    (duties : List (Duty side.signature)) :
    Approaches patience k (Activity.protect duties p) tl (Activity.protect duties q) after := by
  obtain ⟨said, hcomes, haloof⟩ := h
  exact ⟨said, hcomes.protect duties, haloof⟩

theorem approaches_refl (p : side.Task α) (tl : Timeline side.signature (recording patience).World) :
    Approaches patience k p tl p tl :=
  ⟨[], .stays p tl, Activity.aloof_nil k⟩

/-- With the branches as many messages may come, and none of them has come yet. -/
theorem approaches_forkBranches (race : Interrupt) (branches : List (Locator Unit))
    {f : Unit → side.Action β} {n : ℕ} (hn : traffic k tl ≤ n) :
    ∃ after, Approaches patience k (Race.forkBranches (B := side) race k branches >>= f).outcome tl
        (f ()).outcome after ∧
      after.inboxes = tl.inboxes ∧ traffic k after ≤ ↑(n + branches.length) := by
  induction branches generalizing tl n with
  | nil =>
    refine ⟨tl, ?_, rfl, hn⟩
    simp only [Race.forkBranches, pure_bind]
    exact approaches_refl _ tl
  | cons l rest ih =>
    simp only [Race.forkBranches, Interrupt.child, bind_assoc, pure_bind]
    set made : Timeline side.signature (recording patience).World :=
      { tl with tokens := (tl.tokens.make (some race.token)).2 }
    set i : Interrupt := { race with token := (tl.tokens.make (some race.token)).1 }
    have hmade : perform (recording patience) tl (.newToken (some race.token)) =
        some (i.token, made) := rfl
    have hforked : perform (recording patience) made (.fork (.branch l i k)) =
        some ((), made.fork (recording patience) (.branch l i k)) := rfl
    have hone : traffic k (made.fork (recording patience) (.branch l i k)) ≤ ↑(n + 1) := by
      have hpostage : postage k (.fork (.branch l i k)) = 1 := if_pos rfl
      refine (traffic_recorded hforked).trans ?_
      rw [hpostage, Nat.cast_succ]
      refine add_le_add ((traffic_recorded hmade).trans ?_) le_rfl
      exact (add_zero _).le.trans hn
    obtain ⟨after, happroaches, hinboxes, htraffic⟩ := ih hone
    refine ⟨after, approaches_request hmade ENat.top_ne_zero.symm (approaches_request hforked ?_ happroaches), hinboxes, ?_⟩
    · have hpostage : postage k (.fork (.branch l i k)) = 1 := if_pos rfl
      rw [hpostage]
      exact ENat.one_ne_top
    · rwa [List.length_cons, Nat.add_comm rest.length 1, ← Nat.add_assoc]

/-- How a race goes on when it has stopped to read. -/
def conclude (k : Inbox) (race : Token) (winner : Except (Option Error) (side.Handle × Nat)) :
    side.Action Handle := do
  Action.cancel race
  match winner with
  | .ok (handle, left) =>
    Action.fork (.drain k left)
    return handle
  | .error last => throw (last.getD (.elementNotFound "race produced no handle"))

/-- A race whose branches look. -/
def awaitFirst (k : Inbox) (race : Token) (n : Nat) : side.Action Handle := do
  let winner ← (Race.firstHandle (B := side) k n none).protect [.close k, .cancel race]
  conclude k race winner

theorem listens_awaitFirst (race : Token) (n : Nat) :
    Listens patience k n (fun r a => a = r) (awaitFirst k race n).outcome := by
  refine ⟨_, none, _, outcome_bind _ _, fun winner tl => ?_, fun last => ?_⟩
  · cases winner with
    | ok found => exact ⟨_, _, _, comes_request rfl (comes_request rfl (.stays _ _)), rfl⟩
    | error last => exact ⟨_, _, _, comes_request rfl (.stays _ _), rfl⟩
  · exact silent_request rfl fun _ _ => le_rfl

theorem race_run {branches : List (Locator Unit)} (hne : branches ≠ []) (i : Interrupt) :
    Race.run (B := side) branches i = (do
      let race ← i.child
      let inbox : Inbox ← Action.perform .newInbox
      Race.forkBranches race inbox branches
      awaitFirst inbox race.token branches.length) := by
  unfold Race.run
  split
  · rename_i hempty
    exact absurd (List.isEmpty_iff.mp hempty) hne
  · unfold awaitFirst conclude
    refine congrArg ((i.child : side.Action Interrupt) >>= ·) (funext fun race => ?_)
    refine congrArg ((Action.perform .newInbox : side.Action Inbox) >>= ·) (funext fun inbox => ?_)
    refine congrArg (Race.forkBranches (B := side) race inbox branches >>= ·) (funext fun _ => ?_)
    refine congrArg (_ >>= ·) (funext fun winner => ?_)
    refine congrArg ((Action.cancel race.token : side.Action Unit) >>= ·) (funext fun _ => ?_)
    cases winner <;> rfl

/-- A race comes to wait for one message from each branch. -/
theorem approaches_race {branches : List (Locator Unit)} (hne : branches ≠ []) (i : Interrupt)
    (hk : tl.inboxes.size = k) (hfresh : traffic k tl ≤ 0) :
    ∃ race after, Approaches patience k (Race.run (B := side) branches i).outcome tl
        (awaitFirst k race branches.length).outcome after ∧
      traffic k after ≤ branches.length ∧ k < after.inboxes.size ∧ after.messages k = [] := by
  rw [race_run hne]
  simp only [Interrupt.child, bind_assoc, pure_bind]
  set race : Interrupt := { i with token := (tl.tokens.make (some i.token)).1 }
  set made : Timeline side.signature (recording patience).World :=
    { tl with tokens := (tl.tokens.make (some i.token)).2 }
  set opened : Timeline side.signature (recording patience).World :=
    { made with inboxes := tl.inboxes.push ⟨[], false⟩ }
  have hmade : perform (recording patience) tl (.newToken (some i.token)) = some (race.token, made) := rfl
  have hopened : perform (recording patience) made .newInbox = some (k, opened) := by
    rw [← hk]
    rfl
  have hnone : traffic k opened ≤ ↑(0 : ℕ) :=
    (traffic_recorded hopened).trans ((add_zero _).le.trans ((traffic_recorded hmade).trans
      ((add_zero _).le.trans hfresh)))
  obtain ⟨after, happroaches, hinboxes, htraffic⟩ := approaches_forkBranches race branches hnone
    (f := fun _ => awaitFirst k race.token branches.length)
  refine ⟨race.token, after, approaches_request hmade ENat.top_ne_zero.symm
    (approaches_request hopened ENat.top_ne_zero.symm happroaches), ?_, ?_, ?_⟩
  · rwa [Nat.zero_add] at htraffic
  · rw [hinboxes, Array.size_push, hk]
    exact Nat.lt_succ_self k
  · have hlast : opened.messages k = [] := by
      simp [Timeline.messages, opened, ← hk]
    rw [Activity.messages_of_inboxes hinboxes k, hlast]

/-- An operation makes of what its race came to a pair: that, and whether it was cancelled. -/
def Reports (r : Except Error Handle) (a : Except Error (Except Error Handle × Bool)) : Prop :=
  ∃ cancelled, a = .ok (r, cancelled)

theorem approaches_body {c : Contest} (hne : c.branches ≠ []) (i : Interrupt)
    (hk : tl.inboxes.size = k) (hfresh : traffic k tl ≤ 0) :
    ∃ p after, Approaches patience k (c.body i).outcome tl p after ∧
      Listens patience k c.branches.length Reports p ∧
      traffic k after ≤ c.branches.length ∧ k < after.inboxes.size ∧ after.messages k = [] := by
  obtain ⟨race, after, happroaches, htraffic, hsize, hempty⟩ := approaches_race hne i hk hfresh
  have hbody : (c.body i).outcome = Activity.bind (Race.run (B := side) c.branches i).outcome fun r =>
      (do
        let cancelled ← Action.isCancelled i.token
        return (r, cancelled) : side.Action (Except Error Handle × Bool)).outcome :=
    outcome_attempt_bind _ _
  rw [hbody]
  refine ⟨_, after, happroaches.bind _, (listens_awaitFirst race _).bind ?_ ?_, htraffic, hsize, hempty⟩
  · rintro r _ tl rfl
    exact ⟨_, _, _, comes_request rfl (.stays _ _), _, rfl⟩
  · exact fun r => silent_request rfl fun _ _ => le_rfl

/-- An operation that races comes to wait for one message from each branch. -/
theorem opens {c : Contest} (hne : c.branches ≠ []) (hk : tl.inboxes.size = k)
    (hfresh : traffic k tl ≤ 0) :
    ∃ p after, Approaches patience k c.activity tl p after ∧
      Listens patience k c.branches.length Reports p ∧
      traffic k after ≤ c.branches.length ∧ k < after.inboxes.size ∧ after.messages k = [] := by
  have hsame : ∀ {r : Request side.signature} {a : r.Answer}
      {tl after : Timeline side.signature (recording patience).World}, postage k r = 0 →
      perform (recording patience) tl r = some (a, after) → traffic k tl ≤ 0 → traffic k after ≤ 0 := by
    intro r a tl after hr hp h
    have hle := traffic_recorded (k := k) hp
    rw [hr, add_zero] at hle
    exact hle.trans h
  set first : Timeline side.signature (recording patience).World :=
    { tl with tokens := (tl.tokens.make c.signal).2 }
  set second : Timeline side.signature (recording patience).World :=
    { first with tokens := (first.tokens.make none).2 }
  have hfirst : perform (recording patience) tl (.newToken c.signal) =
      some ((tl.tokens.make c.signal).1, first) := rfl
  have hsecond : perform (recording patience) first (.newToken none) =
      some ((first.tokens.make none).1, second) := rfl
  have hquiet : traffic k second ≤ 0 := hsame rfl hsecond (hsame rfl hfirst hfresh)
  unfold Contest.activity Interrupt.within
  by_cases hzero : c.timeout = 0
  · obtain ⟨p, after, happroaches, hlistens, hafter⟩ := approaches_body hne
      ⟨(tl.tokens.make c.signal).1, (first.tokens.make none).1, none, c.timeout⟩
      (show second.inboxes.size = k from hk) hquiet
    refine ⟨p, after, approaches_request hfirst nofun (approaches_request hsecond nofun ?_), hlistens, hafter⟩
    rw [if_pos hzero]
    exact happroaches
  · set third : Timeline side.signature (recording patience).World :=
      { second with tokens := (second.tokens.make none).2 }
    set ended : Token := (second.tokens.make none).1
    set i : Interrupt := ⟨(tl.tokens.make c.signal).1, (first.tokens.make none).1,
      some (second.clock + c.timeout), c.timeout⟩
    set last := third.fork (recording patience) (.expire i ended)
    have hthird : perform (recording patience) second (.newToken none) = some (ended, third) := rfl
    have hlast : perform (recording patience) third (.fork (.expire i ended)) = some ((), last) := rfl
    obtain ⟨p, after, happroaches, hlistens, hafter⟩ := approaches_body hne i
      (show last.inboxes.size = k from hk) (hsame rfl hlast (hsame rfl hthird hquiet))
    let report (r : Except Error (Except Error Handle × Bool)) : side.Task _ := (do
      Action.cancel ended
      Action.ofExcept r : side.Action (Except Error Handle × Bool)).outcome
    refine ⟨Activity.bind (Activity.protect [.cancel ended] p) report, after,
      approaches_request hfirst nofun (approaches_request hsecond nofun ?_),
      (hlistens.protect [.cancel ended]).bind ?_ ?_, hafter⟩
    · rw [if_neg hzero]
      refine approaches_request (r := .clock) rfl nofun (approaches_request hthird nofun
        (approaches_request hlast nofun ?_))
      rw [outcome_attempt_bind]
      exact (happroaches.protect _).bind report
    · rintro r _ tl ⟨cancelled, rfl⟩
      exact ⟨_, _, _, comes_request rfl (.stays _ _), _, rfl⟩
    · intro r
      refine silent_request rfl fun _ _ => ?_
      rw [outcome_ofExcept]
      exact le_rfl

end Opening

end Wayfind.Simulation
