/-
Activities that give way when their token is cancelled.

Every activity of an operation has a token of its own: the operation's, or that of a branch.  It
`Yields` when it asks anything but mild questions, and announces anything, only while it sees that
token not cancelled: since it looked, or since it was woken from a sleep that the token would have
interrupted, it has neither waited nor cancelled anything.  It never sleeps but under the token; and
whatever it forks goes to work under a token that was made for it.
-/
import Mathlib.Data.Multiset.AddSub
import Wayfind.Proofs.Activity.Steady
import Wayfind.Proofs.Page.Outcome
import Wayfind.Locator.Operation

namespace Wayfind

open Activity (Token Duty Request Asks)
open PageSide (Action)

variable {B : PageSide} {α β : Type}

/-- What an activity can tell of its token: it is not cancelled, it is cancelled, or the activity has
let go of it. -/
inductive Sight where
  | live
  | cancelled
  | gone

theorem Sight.eq_live {sight : Sight} (hthere : sight ≠ .gone) (hover : sight ≠ .cancelled) :
    sight = .live := by
  cases sight with
  | live => rfl
  | cancelled => exact absurd rfl hover
  | gone => exact absurd rfl hthere

/-- How an activity stands at an instant. -/
structure Stand where
  sight : Sight
  /-- The tokens that it has made and not given away. -/
  held : Multiset Token
  /-- A time that has come. -/
  since : Nat

namespace Stand

/-- The same, where the token may have been cancelled meanwhile. -/
structure Wakes (st after : Stand) : Prop where
  there : after.sight ≠ .gone
  held : after.held = st.held
  since : after.since = st.since

/-- Later, with no fewer tokens. -/
structure Onward (st after : Stand) : Prop where
  there : after.sight ≠ .gone
  held : st.held ≤ after.held
  since : st.since ≤ after.since

variable {st mid after : Stand}

theorem Onward.refl (h : st.sight ≠ .gone) : st.Onward st := ⟨h, le_rfl, le_rfl⟩

theorem Onward.trans (h : st.Onward mid) (h' : mid.Onward after) : st.Onward after :=
  ⟨h'.there, h.held.trans h'.held, h.since.trans h'.since⟩

theorem Wakes.onward (h : st.Wakes after) : st.Onward after := ⟨h.there, h.held.ge, h.since.ge⟩

end Stand

/-- On which terms an activity yields. -/
structure Terms (B : PageSide) where
  /-- The token of the operation, which nobody lets go of. -/
  root : Token
  /-- The activity's own token. -/
  own : Token
  /-- What may be asked when the token is cancelled. -/
  mild : B.Query → Prop
  /-- It may take from races that others have made. -/
  drains : Prop
  /-- With such duties it may wait for good from that time on. -/
  idle : List (Duty B.signature) → Nat → Prop
  /-- The duties of what it is part of. -/
  around : List (Duty B.signature)

namespace Terms

variable (T : Terms B)

/-- For an activity that is part of another one which has such duties all the time. -/
def within (duties : List (Duty B.signature)) : Terms B := { T with around := duties ++ T.around }

/-- The activity may make the request. -/
def Allows (st : Stand) (watched : List Token) (duties : List (Duty B.signature)) :
    Request B.signature → Prop
  | .query q => st.sight = .cancelled → T.mild q
  | .sleepUntil _ => st.sight = .live ∧ T.own ∈ watched
  | .forever => st.sight = .live ∧ T.own ∈ watched ∨ watched = [] ∧ T.idle (duties ++ T.around) st.since
  | .take inbox => watched = [] ∧ (T.drains ∨
      -- should it be dropped it gives up a race of its own
      ∃ race ∈ st.held, ∃ rest, duties ++ T.around = .close inbox :: .cancel race :: rest)
  | .fork (.branch _ i _) => i.token ∈ st.held
  | .fork (.release _) | .fork (.drain _ _) => True
  | .fork _ => False
  | .newToken parent => ∃ p, parent = some p ∧ (p = T.own ∨ p ∈ st.held)
  | .discard t => t = T.own ∧ t ≠ T.root
  | .close _ => False
  | .announce => st.sight ≠ .cancelled
  | .clock | .isCancelled _ | .cancel _ | .newInbox | .post _ _ => True

/-- The tokens that go with a job. -/
def given : Job B.Handle B.Page B.Chore → Multiset Token
  | .branch _ i _ => {i.token}
  | _ => 0

/-- How the activity may stand when the request has been answered. -/
def Moves (st : Stand) : (r : Request B.signature) → r.Answer → Stand → Prop
  | .clock, (now : Nat), after => st.since ≤ now ∧ after = { st with since := now }
  | .sleepUntil time, _, after => after = { st with since := max st.since time }
  | .take _, _, after | .cancel _, _, after => st.Wakes after
  | .isCancelled t, (cancelled : Bool), after =>
    after = st ∧ (t = T.own → (cancelled = true ↔ st.sight = .cancelled))
  | .newToken _, (t : Token), after => after = { st with held := t ::ₘ st.held }
  | .fork job, _, after => after = { st with held := st.held - given job }
  | .discard _, _, after => after = { st with sight := .gone }
  | _, _, after => after = st

end Terms

/-- An activity that stands so makes only such requests as it may, and ends as it should. -/
def Yields (T : Terms B) (Q : Stand → α → Prop) : B.Task α → Stand → Prop
  | .done a, st => Q st a
  | .ask r watched duties next stop, st =>
    st.sight ≠ .gone ∧ T.Allows st watched duties r ∧
      (∀ a after, T.Moves st r a after → Yields T Q (next a) after) ∧
      ∀ t h sight, sight ≠ .gone → Yields T Q (stop t h) { st with sight := sight }

variable {T : Terms B} {Q : Stand → α → Prop} {st : Stand}

/-! ### Rules -/

theorem Yields.mono {Q' : Stand → α → Prop} {p : B.Task α} (h : Yields T Q p st)
    (hQ : ∀ after a, Q after a → Q' after a) : Yields T Q' p st := by
  induction p generalizing st with
  | done a => exact hQ st a h
  | ask r ws duties next stop ihn ihs =>
    obtain ⟨hthere, hallows, hnext, hstop⟩ := h
    exact ⟨hthere, hallows, fun a after hmoves => ihn a (hnext a after hmoves),
      fun t ht sight hsight => ihs t ht (hstop t ht sight hsight)⟩

theorem yields_bind {Q : Stand → β → Prop} {p : B.Task α} {f : α → B.Task β}
    (h : Yields T (fun after a => Yields T Q (f a) after) p st) : Yields T Q (Activity.bind p f) st := by
  induction p generalizing st with
  | done a => exact h
  | ask r ws duties next stop ihn ihs =>
    obtain ⟨hthere, hallows, hnext, hstop⟩ := h
    exact ⟨hthere, hallows, fun a after hmoves => ihn a (hnext a after hmoves),
      fun t ht sight hsight => ihs t ht (hstop t ht sight hsight)⟩

theorem Terms.allows_within {duties own : List (Duty B.signature)} {watched : List Token}
    {r : Request B.signature} (h : (T.within duties).Allows st watched own r) :
    T.Allows st watched (own ++ duties) r := by
  have haround : own ++ (T.within duties).around = own ++ duties ++ T.around := (List.append_assoc _ _ _).symm
  cases r with
  | fork job => cases job <;> exact h
  | forever => exact h.imp id (And.imp_right fun hidle => haround ▸ hidle)
  | take inbox => exact h.imp_right (Or.imp_right fun hrace => haround ▸ hrace)
  | _ => exact h

theorem Terms.moves_within {duties : List (Duty B.signature)} {r : Request B.signature} {a : r.Answer}
    {after : Stand} : (T.within duties).Moves st r a after ↔ T.Moves st r a after := by
  cases r <;> exact Iff.rfl

theorem Yields.protect {p : B.Task α} {duties : List (Duty B.signature)}
    (h : Yields (T.within duties) Q p st) : Yields T Q (Activity.protect duties p) st := by
  induction p generalizing st with
  | done a => exact h
  | ask r ws own next stop ihn ihs =>
    obtain ⟨hthere, hallows, hnext, hstop⟩ := h
    exact ⟨hthere, Terms.allows_within hallows,
      fun a after hmoves => ihn a (hnext a after (Terms.moves_within.mpr hmoves)),
      fun t ht sight hsight => ihs t ht (hstop t ht sight hsight)⟩

/-- A request that nothing interrupts. -/
theorem yields_perform {Q : Stand → β → Prop} {r : Request B.signature} {f : r.Answer → B.Task β}
    (hthere : st.sight ≠ .gone) (hallows : T.Allows st [] [] r)
    (hf : ∀ a after, T.Moves st r a after → Yields T Q (f a) after) :
    Yields T Q (Activity.bind (Activity.perform r) f) st :=
  yields_bind ⟨hthere, hallows, fun a after hmoves => hf a after hmoves, fun _ h => absurd h List.not_mem_nil⟩

/-! ### Under the token -/

/-- The activity does no more than ask and wait: nothing interrupts it, and it has no duties. -/
def Looks : B.Task α → Prop
  | .done _ => True
  | .ask (.query _) watched duties next _ => watched = [] ∧ duties = [] ∧ ∀ a, Looks (next a)
  | .ask .clock watched duties next _ => watched = [] ∧ duties = [] ∧ ∀ a, Looks (next a)
  | .ask (.sleepUntil _) watched duties next _ => watched = [] ∧ duties = [] ∧ ∀ a, Looks (next a)
  | .ask .forever watched duties next _ => watched = [] ∧ duties = [] ∧ ∀ a, Looks (next a)
  | .ask .announce watched duties next _ => watched = [] ∧ duties = [] ∧ ∀ a, Looks (next a)
  | .ask _ _ _ _ _ => False

/-- Whoever only looks may do so while the token is not cancelled, if the token interrupts it. -/
theorem yields_guard {p halt : B.Task α} (hp : Looks p) (hlive : st.sight = .live)
    (hdone : ∀ a after, st.Onward after → Q after a)
    (hhalt : ∀ after, st.Onward after → Yields T Q halt after) :
    Yields T Q (Activity.guard T.own halt p) st := by
  have hthere : st.sight ≠ .gone := by rw [hlive]; nofun
  induction p generalizing st with
  | done a => exact hdone a st (.refl hthere)
  | ask r ws duties next stop ihn ihs =>
    -- interrupted it halts, and else it goes on to look
    have hgo (hws : ws = []) (hduties : duties = []) (hnext : ∀ a, Looks (next a))
        (hallows : T.Allows st (T.own :: ws) duties r)
        (hmoves : ∀ a after, T.Moves st r a after → after.sight = .live ∧ st.Onward after) :
        Yields T Q (Activity.guard T.own halt (.ask r ws duties next stop)) st := by
      subst hws hduties
      refine ⟨hthere, hallows, fun a after hmove => ?_, fun t ht sight hsight => ?_⟩
      · obtain ⟨hstill, honward⟩ := hmoves a after hmove
        exact ihn a (hnext a) hstill (fun a last hlast => hdone a last (honward.trans hlast))
          (fun last hlast => hhalt last (honward.trans hlast)) honward.there
      · obtain rfl : t = T.own := List.mem_singleton.mp ht
        simp only [dite_true]
        exact hhalt _ ⟨hsight, le_rfl, le_rfl⟩
    cases r with
    | query q =>
      refine hgo hp.1 hp.2.1 hp.2.2 (fun hover => absurd (hlive.symm.trans hover) nofun) ?_
      rintro a after rfl
      exact ⟨hlive, .refl hthere⟩
    | clock =>
      refine hgo hp.1 hp.2.1 hp.2.2 trivial ?_
      rintro a after ⟨hle, rfl⟩
      exact ⟨hlive, hthere, le_rfl, hle⟩
    | sleepUntil time =>
      refine hgo hp.1 hp.2.1 hp.2.2 ⟨hlive, List.mem_cons_self⟩ ?_
      rintro a after rfl
      exact ⟨hlive, hthere, le_rfl, le_max_left _ _⟩
    | forever =>
      exact hgo hp.1 hp.2.1 hp.2.2 (Or.inl ⟨hlive, List.mem_cons_self⟩) fun a => Empty.elim a
    | announce =>
      refine hgo hp.1 hp.2.1 hp.2.2 (fun hover => absurd (hlive.symm.trans hover) nofun) ?_
      rintro a after rfl
      exact ⟨hlive, .refl hthere⟩
    | _ => exact absurd hp id

/-! ### Actions -/

/-- The action, begun by somebody who stands so, yields, and loses nothing. -/
def Complies (T : Terms B) (st : Stand) (a : B.Action α) : Prop :=
  Yields T (fun after _ => st.Onward after) a.outcome st

theorem yields_andThen {Q : Stand → Except Error β → Prop} {a : B.Action α} {f : α → B.Action β}
    (h : Yields T (fun after r => match r with
      | .ok v => Yields T Q (f v).outcome after
      | .error e => Q after (.error e)) a.outcome st) : Yields T Q (a >>= f).outcome st := by
  rw [outcome_bind]
  refine yields_bind (h.mono fun after r hr => ?_)
  cases r <;> exact hr

namespace Complies

theorem onward {mid : Stand} {a : B.Action α} (h : Complies T mid a) (ho : st.Onward mid) :
    Yields T (fun after _ => st.Onward after) a.outcome mid :=
  Yields.mono h fun _ _ => ho.trans

theorem pure {v : α} (h : st.sight ≠ .gone) : Complies T st (Pure.pure v) := .refl h

theorem throw {e : Error} (h : st.sight ≠ .gone) : Complies T st (MonadExcept.throw e : B.Action α) := .refl h

theorem ofExcept {r : Except Error α} (h : st.sight ≠ .gone) : Complies T st (Action.ofExcept r) := by
  unfold Complies
  rw [outcome_ofExcept]
  exact .refl h

theorem bind {a : B.Action α} {f : α → B.Action β} (ha : Complies T st a)
    (hf : ∀ v after, st.Onward after → Complies T after (f v)) : Complies T st (a >>= f) := by
  refine yields_andThen (ha.mono fun after r honward => ?_)
  cases r with
  | ok v => exact (hf v after honward).onward honward
  | error e => exact honward

theorem attempt {a : B.Action α} (ha : Complies T st a) : Complies T st a.attempt :=
  yields_bind (ha.mono fun _ _ h => h)

theorem protect {a : B.Action α} {duties : List (Duty B.signature)} (ha : Complies (T.within duties) st a) :
    Complies T st (a.protect duties) :=
  Yields.protect ha

/-- A request that nothing interrupts. -/
theorem perform {r : Request B.signature} {f : r.Answer → B.Action β} (hthere : st.sight ≠ .gone)
    (hallows : T.Allows st [] [] r)
    (hf : ∀ a after, T.Moves st r a after → Yields T (fun last _ => st.Onward last) (f a).outcome after) :
    Complies T st (Action.perform r >>= f) := by
  unfold Complies
  rw [outcome_perform_bind]
  exact yields_perform hthere hallows hf

theorem clock {f : Nat → B.Action β} (hthere : st.sight ≠ .gone)
    (hf : ∀ time after, st.Onward after → Complies T after (f time)) :
    Complies T st (Action.clock >>= f) := by
  refine perform hthere trivial ?_
  rintro time after ⟨hle, rfl⟩
  have honward : st.Onward { st with since := time } := ⟨hthere, le_rfl, hle⟩
  exact (hf time _ honward).onward honward

/-- To ask whether a token is cancelled tells something about the activity's own token. -/
theorem isCancelled {t : Token} {f : Bool → B.Action β} (hthere : st.sight ≠ .gone)
    (hf : ∀ cancelled, (t = T.own → (cancelled = true ↔ st.sight = .cancelled)) →
      Complies T st (f cancelled)) :
    Complies T st (Action.isCancelled t >>= f) := by
  refine perform hthere trivial ?_
  rintro cancelled after ⟨rfl, htells⟩
  exact hf cancelled htells

theorem cancel {t : Token} {f : Unit → B.Action β} (hthere : st.sight ≠ .gone)
    (hf : ∀ after, st.Onward after → Complies T after (f ())) : Complies T st (Action.cancel t >>= f) :=
  perform hthere trivial fun _ after hwakes => (hf after hwakes.onward).onward hwakes.onward

end Complies

/-! ### Interruption -/

variable {i : Interrupt}

theorem complies_error (hthere : st.sight ≠ .gone) : Complies T st (i.error : B.Action Error) :=
  .isCancelled hthere fun expired _ => by
    cases expired <;> exact .pure hthere

theorem complies_fail (hthere : st.sight ≠ .gone) : Complies T st (i.fail : B.Action α) :=
  (complies_error hthere).bind fun _ _ honward => .throw honward.there

theorem complies_interruption (hthere : st.sight ≠ .gone) :
    Complies T st (i.interruption : B.Action (Option Error)) :=
  .isCancelled hthere fun cancelled _ => by
    cases cancelled
    · exact .pure hthere
    · exact (complies_error hthere).bind fun _ _ honward => .pure honward.there

theorem complies_remaining (hthere : st.sight ≠ .gone) : Complies T st (i.remaining : B.Action Nat) := by
  unfold Interrupt.remaining
  split
  · exact .pure hthere
  · exact .clock hthere fun _ _ honward => .pure honward.there

/-- Whoever asks for its own token first knows how it stands. -/
theorem yields_unlessCancelled {p halt : B.Task α} (hthere : st.sight ≠ .gone)
    (hover : st.sight = .cancelled → Yields T Q halt st)
    (hlive : st.sight = .live → Yields T Q (Activity.guard T.own halt p) st) :
    Yields T Q (Activity.unlessCancelled T.own halt p) st := by
  refine yields_perform hthere trivial ?_
  rintro cancelled after ⟨rfl, htells⟩
  have hanswer := htells rfl
  cases cancelled with
  | true => exact hover (hanswer.mp rfl)
  | false => exact hlive (Sight.eq_live hthere fun hover => Bool.false_ne_true (hanswer.mpr hover))

/-- Under its own token an activity may do whatever only looks. -/
theorem complies_guard {a : B.Action α} (hown : i.token = T.own) (hthere : st.sight ≠ .gone)
    (ha : Looks a.outcome) : Complies T st (i.guard a) := by
  show Yields T _ (Activity.unlessCancelled i.token i.fail.outcome a.outcome) st
  rw [hown]
  refine yields_unlessCancelled hthere (fun _ => complies_fail hthere) fun hlive => ?_
  exact yields_guard ha hlive (fun _ _ => id) fun after honward => (complies_fail honward.there).onward honward

/-- After a pause it is later. -/
theorem yields_pause (hown : i.token = T.own) (hthere : st.sight ≠ .gone) :
    Yields T (fun after r => st.Onward after ∧ ∀ v, r = .ok v → st.since + retryDelay ≤ after.since)
      (i.pause : B.Action Unit).outcome st := by
  have hfail {mid : Stand} (hmid : st.Onward mid) :
      Yields T (fun after r => st.Onward after ∧ ∀ v, r = .ok v → st.since + retryDelay ≤ after.since)
        (i.fail : B.Action Unit).outcome mid := by
    refine yields_andThen (((complies_error hmid.there).onward hmid).mono fun after r honward => ?_)
    cases r <;> exact ⟨honward, nofun⟩
  show Yields T _ (Activity.unlessCancelled i.token i.fail.outcome (Action.sleep retryDelay).outcome) st
  rw [hown]
  refine yields_unlessCancelled hthere (fun _ => hfail (.refl hthere)) fun hlive => ?_
  refine ⟨hthere, trivial, ?_, fun t ht sight hsight => ?_⟩
  · rintro now mid ⟨hle, rfl⟩
    refine ⟨hthere, ⟨hlive, List.mem_cons_self⟩, ?_, fun t ht sight hsight => ?_⟩
    · rintro _ after rfl
      refine ⟨⟨hthere, le_rfl, hle.trans (le_max_left _ _)⟩, fun _ _ => ?_⟩
      exact (Nat.add_le_add_right hle _).trans (le_max_right _ _)
    · obtain rfl : t = T.own := List.mem_singleton.mp ht
      simp only [dite_true]
      exact hfail ⟨hsight, le_rfl, hle⟩
  · obtain rfl : t = T.own := List.mem_singleton.mp ht
    simp only [dite_true]
    exact hfail ⟨hsight, le_rfl, le_rfl⟩

end Wayfind
