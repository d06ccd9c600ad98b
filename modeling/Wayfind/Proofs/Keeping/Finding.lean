/-
Finding a handle keeps the shares balanced.

`finds_resolve` is the main fact: whoever looks for a locator's handle ends with that
handle and nothing else, whatever has failed, lost a race or been interrupted on the way.
It goes by the structure of the locator.  A race is where the work is: its owner has to
take as many messages as it has started branches, and what it does not take itself it
leaves to a drain.
-/
import Wayfind.Proofs.Keeping.Discipline
import Wayfind.Proofs.Page.Acting

namespace Wayfind.Keeping

open Activity (Token Inbox InboxState Tokens Request Duty Role Timeline)
open PageSide (Action releaseDuty)

variable {B : PageSide} {K : Activity.Backend B.signature} {b : Browser B} {C : Custody K b}
  {σ : Station C} {x : Share C.Charge} {α β : Type}

/-! ### Under a token -/

/-- Why an operation was interrupted: its time is over, or it was cancelled. -/
def verdict (i : Interrupt) (late : Bool) : Error :=
  if late then .timeout ("Timed out after waiting " ++ toString i.timeout ++ "ms") else .cancelled

theorem goes_error {Q : Post C β} {i : Interrupt} {f : Except Error Error → B.Task β}
    {others : Multiset (Share C.Charge)} {tl : Timeline B.signature K.World} :
    Goes σ Q (Activity.bind (i.error : B.Action Error).outcome f) others tl ↔
      Goes σ Q (f (.ok (verdict i (tl.isCancelled i.expired)))) others tl := by
  have houtcome : (i.error : B.Action Error).outcome = Activity.bind
      (Activity.perform (.isCancelled i.expired)) fun late : Bool => .done (.ok (verdict i late)) := by
    refine (outcome_lift_bind _ _).trans ?_
    congr 1
    funext late
    cases late <;> rfl
  rw [houtcome]
  exact goes_bind.trans goes_isCancelled

/-- To say why an operation was interrupted changes nothing. -/
theorem spec_fail (i : Interrupt) :
    Spec σ x (i.fail : B.Action α) fun r y => y = x ∧ ∃ e, r = .error e := by
  intro tl others hb
  have houtcome : (i.fail : B.Action α).outcome = _ := outcome_bind i.error _
  rw [houtcome, goes_error]
  exact ⟨x, ⟨rfl, _, rfl⟩, hb⟩

/-- A look under a token brings what it acquires, or an error. -/
theorem Spec.guard {i : Interrupt} {a : B.Action α} {m : Except Error α → Multiset C.Charge}
    (hx : x.Seeks σ i.token) (hm : ∀ e, m (.error e) = 0) (ha : Brings C.toAccount 0 a m) :
    Spec σ x (i.guard a) fun r y => y = { x with charges := m r + x.charges } := by
  intro tl others hb
  have hhalt : ∀ others tl, σ.Holds tl (x ::ₘ others) →
      Goes σ (fun r others tl => ∃ y, y = { x with charges := m r + x.charges } ∧
        σ.Holds tl (y ::ₘ others)) (Interrupt.fail i : B.Action α).outcome others tl := by
    intro others tl hb
    refine (spec_fail i tl others hb).mono ?_
    rintro r others tl ⟨y, ⟨rfl, e, rfl⟩, hb'⟩
    refine ⟨y, ?_, hb'⟩
    rw [hm, zero_add]
  refine goes_isCancelled.mpr ?_
  rcases hc : tl.isCancelled i.token with _ | _
  · have howes := hb.owes
    rw [← zero_add (besides _ _ _ _)] at howes
    refine Amid.guard hx ?_ (fun others tl hb _ => hhalt others tl hb) (ha _ _ howes) ⟨_, hb⟩ hc
    rintro r others tl ⟨w, hw⟩ howes
    exact ⟨_, rfl, hw.gain howes⟩
  · exact hhalt others tl hb

/-! ### Acting -/

/-- What is done to an element changes no account. -/
theorem deeds_idle (C : Custody K b) : Deeds b.realm fun _ a => Idles C.toAccount a where
  pure _ := .pure rfl
  throw _ := .throw rfl
  bind := Idles.bind
  announce := (Brings.announce (Brings.pure rfl) :
    Idles C.toAccount (Action.perform .announce >>= fun _ => (pure () : B.Action Unit)))
  evaluate := C.evaluate
  click := C.click
  hover := C.hover
  focus := C.focus
  typeText := C.typeText
  select := C.select
  scrollIntoView := C.scrollIntoView
  isIntersecting := C.isIntersecting

/-- To act on an element makes no handle. -/
theorem idles_act (C : Custody K b) (handle : B.Handle) (o : Locator.Options) (op : Operation) :
    Idles C.toAccount (Locator.act b.realm o handle op) :=
  (deeds_idle C).act handle o op

/-! ### Releasing -/

/-- To release a handle settles its charges, and changes nothing else. -/
theorem goes_release {Q : Post C β} {h : B.Handle} {rest : Multiset C.Charge} {f : Unit → B.Task β}
    {others : Multiset (Share C.Charge)} {tl : Timeline B.signature K.World}
    (hb : σ.Holds tl (x ::ₘ others)) (hx : x.charges = C.charge h + rest)
    (hf : ∀ w, σ.Holds { tl with world := w } ({ x with charges := rest } ::ₘ others) →
      Goes σ Q (f ()) others { tl with world := w }) :
    Goes σ Q (Activity.bind (b.realm.release h) f) others tl := by
  have howes := (balanced_cons.mp hb).ledger
  have hcharges : σ.base + (x.charges + chargesOf others) + enclosedAll C.chargeOf (boxes tl) =
      C.charge h + (σ.base + (rest + chargesOf others) + enclosedAll C.chargeOf (boxes tl)) := by
    rw [hx]
    ac_rfl
  rw [hcharges] at howes
  refine goes_bind.mpr (goes_prompt (C.release h _ _ howes) fun _ w hw => ?_)
  exact hf w (balanced_cons.mpr ((balanced_cons.mp hb).ask hw))

theorem outcome_releaseIn (realm : Realm B) (h : B.Handle) :
    (realm.releaseIn h).outcome = Activity.bind (realm.release h) fun _ => .done (.ok ()) := rfl

theorem spec_releaseIn {h : B.Handle} {rest : Multiset C.Charge} (hx : x.charges = C.charge h + rest) :
    Spec σ x (b.realm.releaseIn h) fun r y => r = .ok () ∧ y = { x with charges := rest } := by
  intro tl others hb
  rw [outcome_releaseIn]
  exact goes_release hb hx fun w hw => ⟨_, ⟨rfl, rfl⟩, hw⟩

/-! ### Races -/

/-- Branches are started: as many messages more are due. -/
theorem spec_forkBranches {race : Interrupt} {inbox : Inbox} (branches : List (Locator B.Page))
    {n : Nat} (hdue : x.due = some ⟨inbox, race.token, n⟩) :
    Spec σ x (Race.forkBranches (B := B) race inbox branches) fun r y =>
      r = .ok () ∧ y = { x with due := some ⟨inbox, race.token, n + branches.length⟩ } := by
  induction branches generalizing x n with
  | nil =>
    refine Spec.pure ⟨rfl, ?_⟩
    simp [← hdue]
  | cons l rest ih =>
    intro tl others hb
    have hforked := (balanced_cons.mp hb).forkBranch hdue
    have hrest := ih (x := { x with due := some ⟨inbox, race.token, n + 1⟩ }) (n := n + 1) rfl
      (({ tl with tokens := (tl.tokens.make (some race.token)).2 } : Timeline B.signature K.World).fork
        K (.branch l { race with token := tl.tokens.count } inbox))
      (Share.ofBranch tl.tokens.count inbox race.token ::ₘ others)
      ((balanced_cons.mpr hforked).ignores rfl rfl rfl rfl)
    simp only [Race.forkBranches, Interrupt.child, bind_assoc, pure_bind]
    refine (outcome_perform_bind _ _) ▸ goes_newToken.mpr ?_
    refine (outcome_perform_bind _ _) ▸ goes_fork
      (Share.Starts.branch l { race with token := tl.tokens.count } inbox race.token) ?_
    refine hrest.mono ?_
    rintro r others tl ⟨y, ⟨rfl, rfl⟩, hb⟩
    refine ⟨_, ⟨rfl, rfl⟩, ?_⟩
    rwa [List.length_cons, Nat.add_comm rest.length 1, ← Nat.add_assoc]

/-- Who has a race and may wait for it holds the share, with what is due, at a take. -/
theorem Share.Seeks.racing {t : Token} (hx : x.Seeks σ t) (inbox : Inbox) (race : Token) {n : Nat}
    (hn : 0 < n) (watched : List Token) :
    ({ x with due := some ⟨inbox, race, n⟩ } : Share C.Charge).Parked (B := B) σ.role (.take inbox)
      watched := by
  refine ⟨?_, fun _ _ => rfl, fun _ _ => Or.inr rfl, fun _ => hx.active, ?_, ?_, hx.aside⟩
  · intro d hd
    obtain rfl := Option.some.inj hd
    exact ⟨rfl, hn⟩
  · intro hs
    exact absurd (hx.seat.symm.trans hs) (by simp)
  · intro e he
    exact absurd (hx.timer.symm.trans he) (by simp)

/-- Who is dropped at a race closes its inbox and cancels it, and settles the rest. -/
theorem Share.Seeks.forsakes {t : Token} (hx : x.Seeks σ t) (inbox : Inbox) (race : Token) (n : Nat)
    (hrole : σ.role = .foreground) :
    Discharged C.toAccount ([.close inbox, .cancel race] ++ σ.around)
      { x with due := some ⟨inbox, race, n⟩ } := by
  refine .race (d := ⟨inbox, race, n⟩) rfl ?_
  have hsame : ({ x with due := none } : Share C.Charge) = x := by rw [← hx.due]
  rw [hsame]
  exact hx.settled hrole

/-- What is taken was the first message. -/
theorem eq_of_take {tl after : Timeline B.signature K.World} {inbox : Inbox}
    {m : Except Error B.Handle} (hp : Timeline.perform K tl (.take inbox) = some (m, after)) :
    ∃ rest, letters (boxes tl) inbox = m :: rest ∧
      after = tl.modifyInbox inbox fun s => { s with messages := rest } := by
  cases Timeline.performs hp with
  | take hmessages => exact ⟨_, hmessages, rfl⟩

/-- What the reader of a race holds when it has stopped to read. -/
def Share.afterFirst (A : Account K) (x : Share A.Charge) (inbox : Inbox) (race : Token) :
    Except (Option Error) (B.Handle × Nat) → Share A.Charge
  | .ok (handle, left) =>
    { x with due := some ⟨inbox, race, left⟩, charges := A.charge handle + x.charges }
  | .error _ => { x with due := some ⟨inbox, race, 0⟩ }

/-- The reader takes messages up to the first handle, and is not interrupted. -/
theorem spec_firstHandle {t : Token} (hx : x.Seeks σ t) (inbox : Inbox) (race : Token) (n : Nat)
    (last : Option Error) :
    Spec (σ.within [.close inbox, .cancel race]) { x with due := some ⟨inbox, race, n⟩ }
      (Race.firstHandle (B := B) inbox n last) fun r y =>
        ∃ o, r = .ok o ∧ y = x.afterFirst C.toAccount inbox race o := by
  induction n generalizing last with
  | zero => exact Spec.pure ⟨_, rfl, rfl⟩
  | succ n ih =>
    intro tl others hb
    simp only [Race.firstHandle]
    refine (outcome_perform_bind _ _) ▸ ?_
    refine (congrArg (fun p => Goes (σ.within [.close inbox, .cancel race]) _ p others tl)
      (Activity.bind_perform _)).mpr ?_
    refine goes_wait (hx.racing inbox race (Nat.succ_pos n) []) (hx.forsakes inbox race (n + 1)) nofun hb
      (fun _ => rfl) nofun ?_
    intro after others' m later _ hheld _ hp
    obtain ⟨rest, hm, rfl⟩ := eq_of_take hp
    have htaken : σ.Holds (after.modifyInbox inbox fun s => { s with messages := rest })
        ({ x with due := some ⟨inbox, race, n⟩, charges := C.chargeOf m + x.charges } ::ₘ others') :=
      balanced_cons.mpr ((balanced_cons.mp hheld).take rfl hm)
    cases m with
    | ok handle => exact ⟨_, ⟨_, rfl, rfl⟩, htaken⟩
    | error e =>
      refine ih (some e) _ others' ?_
      have hempty : σ.Holds
          (after.modifyInbox inbox fun s => { s with messages := rest })
          ({ x with due := some ⟨inbox, race, n⟩, charges := 0 + x.charges } ::ₘ others') := htaken
      rw [zero_add] at hempty
      exact hempty

/-- Whoever has a race may cancel it. -/
theorem Fits.cancelRace {A : Account K} {made clock : Nat} {base : Multiset A.Charge} {w : K.World}
    {boxes : Array (InboxState (Except Error B.Handle))} {x : Share A.Charge}
    {tl : Timeline B.signature K.World} {others : Multiset (Share A.Charge)}
    (h : Fits A made base w boxes tl.tokens clock x others) {d : Due} (hd : x.due = some d) :
    Fits A made base w boxes (tl.cancel d.race).tokens clock x others ∧
      (tl.cancel d.race).tokens.isCancelled d.race = true := by
  refine ⟨?_, Timeline.isCancelled_cancel_self h.forest (h.race_range hd).2⟩
  by_cases hlive : tl.tokens.isCancelled d.race = true
  · rw [Timeline.cancel_of_isCancelled h.forest hlive]
    exact h
  · exact h.cut (cut_cancel tl d.race) (Timeline.cancel_forest h.forest d.race)
      (h.race_notMem hd (Bool.eq_false_iff.mpr hlive))

/-- To cancel changes the tokens, and who is queued. -/
theorem balanced_cancel {A : Account K} {made : Nat} {base : Multiset A.Charge} {x : Share A.Charge}
    {tl : Timeline B.signature K.World} {t : Token} {others : Multiset (Share A.Charge)} :
    Balanced A made base (tl.cancel t) (x ::ₘ others) ↔
      Fits A made base tl.world (boxes tl) (tl.cancel t).tokens tl.clock x others := by
  have hsame := Timeline.cancel_sameBut tl t
  have hboxes : boxes (tl.cancel t) = boxes tl := hsame.inboxes
  rw [balanced_cons, hsame.world, hsame.clock, hboxes]

/-- Once a race is decided its owner cancels it, and leaves to a drain what it has not taken. -/
theorem spec_decide {i : Interrupt} (hx : x.Seeks σ i.token) (inbox : Inbox) (race : Token)
    (winner : Except (Option Error) (B.Handle × Nat)) :
    Spec σ (x.afterFirst C.toAccount inbox race winner) (do
      Action.cancel race
      match winner with
      | .ok (handle, left) =>
        Action.fork (.drain inbox left)
        return handle
      | .error last => throw (last.getD (.elementNotFound "race produced no handle")) :
        B.Action B.Handle) fun r y => y = { x with charges := C.chargeOf r + x.charges } := by
  intro tl others hb
  refine (outcome_perform_bind _ _) ▸ goes_cancel.mpr ?_
  cases winner with
  | ok won =>
    obtain ⟨handle, left⟩ := won
    obtain ⟨hb', hc⟩ := (balanced_cons.mp hb).cancelRace rfl
    have hgiven := hb'.handOver rfl hc
    refine (outcome_perform_bind _ _) ▸ goes_fork (Share.Starts.drain inbox race left) ?_
    refine ⟨_, rfl, ?_⟩
    have hshare : ({ x.afterFirst C.toAccount inbox race (.ok (handle, left)) with due := none } :
        Share C.Charge) = { x with charges := C.charge handle + x.charges } := by
      simp only [Share.afterFirst, hx.due]
    rw [hshare] at hgiven
    exact (balanced_cancel.mpr hgiven).ignores rfl rfl rfl rfl
  | error last =>
    obtain ⟨hb', hc⟩ := (balanced_cons.mp hb).cancelRace rfl
    have hclosed := balanced_cancel.mpr (hb'.closeRace rfl hc)
    refine ⟨_, rfl, ?_⟩
    have hshare : ({ x.afterFirst C.toAccount inbox race (.error last) with due := none } :
        Share C.Charge) = { x with charges := 0 + x.charges } := by
      simp only [Share.afterFirst, hx.due, zero_add]
    rw [hshare] at hclosed
    exact hclosed

/-- Somebody who looks under the token finds a handle or fails, and holds nothing else then. -/
def Finds (σ : Station C) (i : Interrupt) (a : B.Action B.Handle) : Prop :=
  ∀ x : Share C.Charge, x.Seeks σ i.token →
    Spec σ x a fun r y => y = { x with charges := C.chargeOf r + x.charges }

theorem finds_race (branches : List (Locator B.Page)) (i : Interrupt) :
    Finds σ i (Race.run (B := B) branches i) := by
  intro x hx
  unfold Race.run
  split
  · refine Spec.throw ?_
    exact congrArg (fun g => { x with charges := g }) (zero_add x.charges).symm
  · intro tl others hb
    have hopened : σ.Holds
        { tl with tokens := (tl.tokens.make (some i.token)).2, inboxes := tl.inboxes.push ⟨[], false⟩ }
        ({ x with due := some ⟨(boxes tl).size, tl.tokens.count, 0⟩ } ::ₘ others) :=
      balanced_cons.mpr ((balanced_cons.mp hb).openRace hx.seat hx.due)
    simp only [Interrupt.child, bind_assoc, pure_bind]
    refine (outcome_perform_bind _ _) ▸ goes_newToken.mpr ?_
    refine (outcome_perform_bind _ _) ▸ goes_newInbox.mpr ?_
    refine Spec.bind (spec_forkBranches branches rfl) ?_ ?_ _ others hopened
    · rintro ⟨⟩ y ⟨-, rfl⟩
      rw [zero_add]
      refine Spec.bind (spec_firstHandle hx _ _ _ none).protect ?_ ?_
      · rintro winner y ⟨o, ho, rfl⟩
        obtain rfl : winner = o := Except.ok.inj ho
        cases winner with
        | ok won => exact spec_decide hx (boxes tl).size tl.tokens.count (.ok won)
        | error last => exact spec_decide hx (boxes tl).size tl.tokens.count (.error last)
      · rintro e y ⟨o, ho, -⟩
        exact absurd ho (by simp)
    · rintro e y ⟨he, -⟩
      exact absurd he (by simp)

/-! ### Locators -/

theorem spec_remaining (i : Interrupt) :
    Spec σ x (i.remaining : B.Action Nat) fun r y => (∃ ms, r = .ok ms) ∧ y = x := by
  unfold Interrupt.remaining
  split
  · exact Spec.pure ⟨⟨0, rfl⟩, rfl⟩
  · intro tl others hb
    refine (outcome_perform_bind _ _) ▸ goes_clock.mpr ?_
    exact ⟨x, ⟨⟨_, rfl⟩, rfl⟩, hb⟩

/-- To know how much time is left changes nothing. -/
theorem Spec.remaining {i : Interrupt} {f : Nat → B.Action α}
    {Q : Except Error α → Share C.Charge → Prop} (h : ∀ ms, Spec σ x (f ms) Q) :
    Spec σ x (i.remaining >>= f) Q := by
  refine (spec_remaining i).bind ?_ ?_
  · rintro ms y ⟨-, rfl⟩
    exact h ms
  · rintro e y ⟨⟨ms, hms⟩, -⟩
    exact absurd hms (by simp)

/-- To release a handle in the middle leaves the rest. -/
theorem Spec.releaseIn {h : B.Handle} {rest : Multiset C.Charge} {f : Unit → B.Action α}
    {Q : Except Error α → Share C.Charge → Prop} (hx : x.charges = C.charge h + rest)
    (hf : Spec σ { x with charges := rest } (f ()) Q) (duties : List (Duty B.signature)) :
    Spec σ x ((b.realm.releaseIn h).protect duties >>= f) Q := by
  refine (spec_releaseIn hx).protect.bind ?_ ?_
  · rintro ⟨⟩ y ⟨-, rfl⟩
    exact hf
  · rintro e y ⟨he, -⟩
    exact absurd he (by simp)

/-- A look under a token by somebody who has a handle in hand, after which the action goes on with
whatever came of it. -/
theorem Spec.attemptGuard {i : Interrupt} {handle : B.Handle} {a : B.Action α}
    {m : Except Error α → Multiset C.Charge} {f : Except Error α → B.Action β}
    {Q : Except Error β → Share C.Charge → Prop}
    (hx : x.Seeks σ i.token) (hm : ∀ e, m (.error e) = 0) (ha : Brings C.toAccount 0 a m)
    (hf : ∀ r, Spec σ { x with charges := m r + (C.charge handle + x.charges) } (f r) Q) :
    Spec σ { x with charges := C.charge handle + x.charges }
      (((i.guard a).protect [releaseDuty handle]).attempt >>= f) Q := by
  have hguard := Spec.guard (hx.withHandle handle) hm ha
  refine hguard.protect.attempt.bind ?_ ?_
  · rintro r y ⟨o, ho, rfl⟩
    obtain rfl : r = o := Except.ok.inj ho
    exact hf r
  · rintro e y ⟨o, ho, -⟩
    exact absurd ho (by simp)

/-- Whoever looks for the handle of a locator finds it, or fails, and holds nothing else then. -/
theorem finds_resolve (i : Interrupt) : ∀ l : Locator B.Page, Finds σ i (l.resolve b i)
  | .node o page selector => by
    intro x hx
    unfold Locator.resolve
    refine Spec.remaining fun ms => ?_
    refine (Spec.guard hx (fun _ => rfl) (C.waitForSelector page selector _)).bind ?_ ?_
    · rintro found y rfl
      cases found with
      | some handle => exact Spec.pure rfl
      | none => exact Spec.throw rfl
    · rintro e y rfl
      rfl
  | .function _ page script => by
    intro x hx
    unfold Locator.resolve
    refine Spec.remaining fun ms => ?_
    exact Spec.guard hx (fun _ => rfl) (C.waitForFunction page script _)
  | .filtered o inner predicate => by
    intro x hx
    have ih := finds_resolve i inner
    unfold Locator.resolve
    refine (ih x hx).bind ?_ fun e y hy => hy
    rintro handle y rfl
    refine Spec.attemptGuard hx (fun _ => rfl) (C.waitFor predicate _ handle) fun held => ?_
    cases held with
    | ok result =>
      refine Spec.releaseIn rfl ?_ _
      exact Spec.pure rfl
    | error e =>
      refine Spec.releaseIn (zero_add _) ?_ _
      refine Spec.throw ?_
      exact congrArg (fun g => { x with charges := g }) (zero_add x.charges).symm
  | .mapped _ inner mapper => by
    intro x hx
    have ih := finds_resolve i inner
    unfold Locator.resolve
    refine (ih x hx).bind ?_ fun e y hy => hy
    rintro handle y rfl
    refine Spec.attemptGuard hx (fun _ => rfl) (C.evaluateHandle handle mapper) fun made => ?_
    refine Spec.releaseIn (add_left_comm _ _ _) ?_ _
    exact Spec.ofExcept rfl
  | .race _ branches => by
    unfold Locator.resolve
    exact finds_race branches i

end Wayfind.Keeping
