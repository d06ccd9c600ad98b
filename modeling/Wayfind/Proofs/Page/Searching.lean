/-
Locators give way when their token is cancelled.

Whatever a locator does under its own token only looks, and what it does besides, to release handles,
is mild.  A race makes a token for itself and one for every branch, and gives each branch its own; what
it then waits for comes from the branches alone.  So attempts, branches, drains and deadlines all yield.
-/
import Wayfind.Proofs.Page.Acting
import Wayfind.Proofs.Page.Yielding

namespace Wayfind

open Activity (Token Inbox Duty Request)
open PageSide (Action releaseDuty)

variable {B : PageSide} {T : Terms B} {st : Stand} {b : Browser B} {α β : Type}

/-! ### Looking -/

theorem Looks.bind {p : B.Task α} {f : α → B.Task β} (hp : Looks p) (hf : ∀ a, Looks (f a)) :
    Looks (Activity.bind p f) := by
  induction p with
  | done a => exact hf a
  | ask r ws duties next stop ihn ihs =>
    cases r with
    | query | clock | sleepUntil | forever | announce => exact ⟨hp.1, hp.2.1, fun a => ihn a (hp.2.2 a)⟩
    | _ => exact absurd hp id

/-- What locators do with the browser only looks, and to release a handle is mild. -/
structure Browser.Looks (mild : B.Query → Prop) (b : Browser B) : Prop where
  dispose : ∀ h {T : Terms B} {st : Stand}, T.mild = mild → st.sight ≠ .gone →
    Complies T st (b.realm.dispose h)
  deeds : Deeds b.realm fun _ a => Wayfind.Looks a.outcome
  evaluateHandle : ∀ h script, Wayfind.Looks (b.realm.evaluateHandle h script []).outcome
  waitFor : ∀ script wait args, Wayfind.Looks (b.realm.waitFor script wait [] args).outcome
  waitForSelector : ∀ page selector wait, Wayfind.Looks (b.pages.waitForSelector page selector wait).outcome
  waitForFunction : ∀ page script wait, Wayfind.Looks (b.pages.waitForFunction page script wait []).outcome

/-! ### Releasing -/

theorem yields_release (hb : b.Looks T.mild) (h : B.Handle) (hthere : st.sight ≠ .gone) :
    Yields T (fun after _ => st.Onward after) (b.realm.release h) st :=
  yields_bind ((hb.dispose h rfl hthere).mono fun _ _ honward => honward)

theorem complies_releaseIn (hb : b.Looks T.mild) (h : B.Handle) (hthere : st.sight ≠ .gone) :
    Complies T st (b.realm.releaseIn h) :=
  yields_bind ((yields_release hb h hthere).mono fun _ _ honward => honward)

theorem complies_releaseThen (hb : b.Looks T.mild) (h : B.Handle) (duties : List (Duty B.signature))
    {f : Unit → B.Action β} (hthere : st.sight ≠ .gone)
    (hf : ∀ after, st.Onward after → Complies T after (f ())) :
    Complies T st ((b.realm.releaseIn h).protect duties >>= f) :=
  (Complies.protect (complies_releaseIn (T := T.within duties) hb h hthere)).bind fun _ => hf

/-! ### Races -/

theorem complies_newToken {parent : Token} {f : Token → B.Action β} (hthere : st.sight ≠ .gone)
    (hparent : parent = T.own ∨ parent ∈ st.held)
    (hf : ∀ t, Yields T (fun last _ => st.Onward last) (f t).outcome { st with held := t ::ₘ st.held }) :
    Complies T st (Action.newToken (some parent) >>= f) := by
  refine .perform hthere ⟨parent, rfl, hparent⟩ ?_
  rintro t after rfl
  exact hf t

theorem complies_fork {job : Job B.Handle B.Page B.Chore} {f : Unit → B.Action β} (hthere : st.sight ≠ .gone)
    (hjob : T.Allows st [] [] (.fork job)) (hgiven : Terms.given job = 0)
    (hf : ∀ after, st.Onward after → Complies T after (f ())) : Complies T st (Action.fork job >>= f) := by
  refine .perform hthere hjob ?_
  rintro _ after rfl
  have hsame : ({ st with held := st.held - Terms.given job } : Stand) = st := by
    rw [hgiven, Multiset.sub_zero]
  rw [hsame]
  exact hf st (.refl hthere)

namespace Race

/-- The token of a race is kept while its branches get theirs. -/
theorem complies_forkBranches (race : Interrupt) (inbox : Inbox) (branches : List (Locator B.Page))
    (hthere : st.sight ≠ .gone) (hrace : race.token ∈ st.held) :
    Complies T st (forkBranches race inbox branches) := by
  induction branches generalizing st with
  | nil => exact .pure hthere
  | cons l rest ih =>
    simp only [forkBranches, Interrupt.child, bind_assoc, pure_bind]
    refine complies_newToken hthere (Or.inr hrace) fun t => ?_
    -- the branch takes its token with it
    have hgiven : ({ st with held := t ::ₘ st.held - {t} } : Stand) = st := by
      rw [Multiset.sub_singleton, Multiset.erase_cons_head]
    refine (outcome_perform_bind _ _) ▸ yields_perform hthere (Multiset.mem_cons_self _ _) ?_
    rintro _ after rfl
    rw [show Terms.given (.branch l { race with token := t } inbox : Job B.Handle B.Page B.Chore) = {t} from rfl,
      hgiven]
    exact ih hthere hrace

/-- Whoever reads a race of its own gives it up when it is dropped. -/
theorem complies_firstHandle {race : Token} {rest : List (Duty B.signature)} (inbox : Inbox) (count : Nat)
    (last : Option Error) (hthere : st.sight ≠ .gone) (hrace : race ∈ st.held)
    (haround : T.around = .close inbox :: .cancel race :: rest) :
    Complies T st (firstHandle inbox count last : B.Action _) := by
  induction count generalizing st last with
  | zero => exact .pure hthere
  | succ count ih =>
    refine .perform hthere ⟨rfl, Or.inr ⟨race, hrace, rest, haround⟩⟩ fun m after hwakes => ?_
    have honward := hwakes.onward
    cases m with
    | ok handle => exact honward
    | error e => exact (ih (some e) honward.there (hwakes.held ▸ hrace)).onward honward

theorem complies_run (branches : List (Locator B.Page)) (i : Interrupt) (hown : i.token = T.own)
    (hthere : st.sight ≠ .gone) : Complies T st (run branches i) := by
  unfold run
  split
  · exact .throw hthere
  simp only [Interrupt.child, bind_assoc, pure_bind]
  refine complies_newToken hthere (Or.inl hown) fun race => ?_
  set made : Stand := { st with held := race ::ₘ st.held } with hmade
  have honward : st.Onward made := ⟨hthere, Multiset.le_cons_self _ _, le_rfl⟩
  refine Complies.onward (.perform hthere trivial ?_) honward
  rintro inbox after rfl
  refine Complies.bind (complies_forkBranches _ inbox branches hthere (Multiset.mem_cons_self _ _)) ?_
  intro _ after hafter
  have hrace : race ∈ after.held := Multiset.mem_of_le hafter.held (Multiset.mem_cons_self _ _)
  refine .bind (.protect (complies_firstHandle inbox _ none hafter.there hrace rfl)) fun winner after hafter => ?_
  refine .cancel hafter.there fun after hafter => ?_
  cases winner with
  | ok won => exact complies_fork hafter.there trivial rfl fun after hafter => .pure hafter.there
  | error last => exact .throw hafter.there

theorem yields_drain (hb : b.Looks T.mild) (hdrains : T.drains) (inbox : Inbox) (count : Nat)
    (hthere : st.sight ≠ .gone) :
    Yields T (fun after _ => st.Onward after) (drain b.realm inbox count) st := by
  induction count generalizing st with
  | zero => exact .refl hthere
  | succ count ih =>
    have hrest {mid : Stand} (hmid : st.Onward mid) :
        Yields T (fun after _ => st.Onward after) (drain b.realm inbox count) mid :=
      (ih hmid.there).mono fun _ _ => hmid.trans
    refine yields_perform hthere ⟨rfl, Or.inl hdrains⟩ fun m after hwakes => ?_
    cases m with
    | ok handle =>
      refine yields_bind ((yields_release hb handle hwakes.there).mono fun last _ honward => ?_)
      exact hrest (hwakes.onward.trans honward)
    | error e => exact hrest hwakes.onward

end Race

/-! ### Attempts -/

section Attempts

variable {i : Interrupt}

/-- Whoever holds a handle while it looks releases it afterwards. -/
theorem complies_attemptGuard {a : B.Action α} {handle : B.Handle} {f : Except Error α → B.Action β}
    (hown : i.token = T.own) (hthere : st.sight ≠ .gone) (ha : Looks a.outcome)
    (hf : ∀ r after, st.Onward after → Complies T after (f r)) :
    Complies T st (((i.guard a).protect [releaseDuty handle]).attempt >>= f) :=
  (Complies.attempt (.protect (complies_guard hown hthere ha))).bind fun r after => hf r after

theorem complies_resolve (hb : b.Looks T.mild) (hown : i.token = T.own) :
    ∀ (l : Locator B.Page) {st : Stand}, st.sight ≠ .gone → Complies T st (l.resolve b i)
  | .node o page selector, st, hthere => by
    unfold Locator.resolve
    refine (complies_remaining hthere).bind fun ms after hafter => ?_
    refine (complies_guard hown hafter.there (hb.waitForSelector page selector _)).bind fun found last hlast => ?_
    cases found with
    | some handle => exact .pure hlast.there
    | none => exact .throw hlast.there
  | .function _ page script, st, hthere => by
    unfold Locator.resolve
    refine (complies_remaining hthere).bind fun ms after hafter => ?_
    exact complies_guard hown hafter.there (hb.waitForFunction page script _)
  | .filtered o inner predicate, st, hthere => by
    have ih := complies_resolve hb hown inner hthere
    unfold Locator.resolve
    refine ih.bind fun handle after hafter => ?_
    refine complies_attemptGuard hown hafter.there (hb.waitFor predicate _ _) fun held after hafter => ?_
    cases held with
    | ok result =>
      exact complies_releaseThen hb result _ hafter.there fun _ h => .pure h.there
    | error e =>
      exact complies_releaseThen hb handle _ hafter.there fun _ h => .throw h.there
  | .mapped _ inner mapper, st, hthere => by
    have ih := complies_resolve hb hown inner hthere
    unfold Locator.resolve
    refine ih.bind fun handle after hafter => ?_
    refine complies_attemptGuard hown hafter.there (hb.evaluateHandle handle mapper) fun made after hafter => ?_
    exact complies_releaseThen hb handle _ hafter.there fun _ h => .ofExcept h.there
  | .race _ branches, st, hthere => by
    unfold Locator.resolve
    exact Race.complies_run branches i hown hthere

theorem complies_attempt (hb : b.Looks T.mild) (hown : i.token = T.own) (l : Locator B.Page) (op : Operation)
    (hthere : st.sight ≠ .gone) : Complies T st (l.attempt b op i) := by
  unfold Locator.attempt
  refine (complies_resolve hb hown l hthere).bind fun handle after hafter => ?_
  have hact : Complies T after (do
      let outcome ← ((i.guard (Locator.act b.realm l.options handle op)).protect
        [releaseDuty handle]).attempt
      (b.realm.releaseIn handle).protect [releaseDuty handle]
      Action.ofExcept outcome
      return none : B.Action (Option B.Handle)) := by
    refine complies_attemptGuard hown hafter.there (hb.deeds.act handle l.options op) fun r after hafter => ?_
    refine complies_releaseThen hb handle _ hafter.there fun last hlast => ?_
    exact (Complies.ofExcept hlast.there).bind fun _ _ h => .pure h.there
  cases op with
  | find => exact .pure hafter.there
  | _ => exact hact

/-- Only who has paused as often as it has attempts waits for good. -/
theorem complies_attempts (hb : b.Looks T.mild) (hown : i.token = T.own) (l : Locator B.Page)
    (op : Operation) {fuel : Nat} (hthere : st.sight ≠ .gone)
    (hidle : ∀ time, st.since + retryDelay * fuel ≤ time → T.idle T.around time) :
    Complies T st (l.attempts b op i fuel) := by
  induction fuel generalizing st with
  | zero =>
    refine ⟨hthere, Or.inr ⟨rfl, hidle _ le_rfl⟩, fun a => Empty.elim a,
      fun _ h => absurd h List.not_mem_nil⟩
  | succ fuel ih =>
    unfold Locator.attempts
    refine (complies_attempt hb hown l op hthere).attempt.bind fun r after hafter => ?_
    cases r with
    | ok result => exact .pure hafter.there
    | error e =>
      refine (complies_interruption hafter.there).bind fun stopped mid hmid => ?_
      cases stopped with
      | some e => exact .throw hmid.there
      | none =>
        refine yields_andThen ((yields_pause hown hmid.there).mono fun last r hlast => ?_)
        obtain ⟨honward, hpaused⟩ := hlast
        cases r with
        | error e => exact honward
        | ok v =>
          refine (ih honward.there fun time htime => hidle time ?_).onward honward
          have hlater := hpaused v rfl
          have hfirst := hafter.since
          have hsecond := hmid.since
          rw [Nat.mul_succ]
          omega

end Attempts

/-! ### Jobs -/

/-- A branch lets go of its token at its end. -/
theorem yields_runBranch (hb : b.Looks T.mild) (l : Locator B.Page) {i : Interrupt} (inbox : Inbox)
    (hown : i.token = T.own) (hroot : T.own ≠ T.root) (hthere : st.sight ≠ .gone) :
    Yields T (fun _ _ => True) (l.runBranch b i inbox) st := by
  have hdiscard {mid : Stand} (hmid : mid.sight ≠ .gone) :
      Yields T (fun _ _ => True) (Activity.perform (.discard i.token) : B.Task Unit) mid :=
    ⟨hmid, ⟨hown, hown ▸ hroot⟩, fun _ _ _ => trivial, fun _ h => absurd h List.not_mem_nil⟩
  refine yields_bind ((complies_resolve hb hown l hthere).mono fun found mid hmid => ?_)
  refine yields_perform hmid.there trivial ?_
  rintro accepted after rfl
  cases mid with
  | error e => exact hdiscard hmid.there
  | ok handle =>
    cases accepted with
    | true => exact hdiscard hmid.there
    | false => exact yields_bind ((yields_release hb handle hmid.there).mono fun _ _ h => hdiscard h.there)

/-- Whoever waits for the deadline does so under the token, and under another one. -/
theorem yields_expire {i : Interrupt} (ended : Token) (hown : i.token = T.own) (hthere : st.sight ≠ .gone) :
    Yields T (fun _ _ => True) (i.expire ended : B.Task Unit) st := by
  unfold Interrupt.expire
  split
  · trivial
  rename_i deadline _
  have hwait : Yields T (fun after _ => after.sight ≠ .gone) (Activity.unlessCancelled ended (return false)
      (Activity.unlessCancelled i.token (return false) do
        let () ← Activity.perform (.sleepUntil deadline)
        return true) : B.Task Bool) st := by
    refine yields_perform hthere trivial ?_
    rintro late after ⟨rfl, -⟩
    cases late with
    | true => exact hthere
    | false =>
      refine ⟨hthere, trivial, ?_, fun t ht sight hsight => ?_⟩
      · rintro cancelled after ⟨rfl, htells⟩
        cases cancelled with
        | true => exact hthere
        | false =>
          have hlive := Sight.eq_live hthere fun hover => Bool.false_ne_true ((htells hown).mpr hover)
          refine ⟨hthere, ⟨hlive, hown ▸ List.mem_cons_of_mem _ List.mem_cons_self⟩, ?_, ?_⟩
          · rintro _ after rfl
            exact hthere
          · intro t ht sight hsight
            dsimp only
            split
            · exact hsight
            · rename_i hended
              obtain rfl : t = i.token :=
                List.mem_singleton.mp ((List.mem_cons.mp ht).resolve_left hended)
              simp only [dite_true]
              exact hsight
      · obtain rfl : t = ended := List.mem_singleton.mp ht
        simp only [dite_true]
        exact hsight
  refine yields_bind (hwait.mono fun after reached hthere => ?_)
  cases reached with
  | true => exact yields_perform hthere trivial fun _ after hwakes =>
      ⟨hwakes.there, trivial, fun _ _ _ => trivial, fun _ h => absurd h List.not_mem_nil⟩
  | false => trivial

end Wayfind
