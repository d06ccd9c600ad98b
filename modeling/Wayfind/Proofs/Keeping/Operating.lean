/-
What an operation does to the shares, and how it ends.

An operation makes attempts from the seat that its token gives it.  Whatever an attempt
has done, afterwards it holds the handle it found and nothing else (`spec_attempt`); so a
failed one leaves nothing.  An error comes out only where the operation's token is seen
cancelled (`Errand.Concludes`), and `Errands` says why that can be.
-/
import Wayfind.Proofs.Keeping.Jobs

namespace Wayfind.Keeping

open Activity (Token Inbox Tokens Request Duty Role Timeline)
open PageSide (Action releaseDuty)

variable {B : PageSide} {K : Activity.Backend B.signature} {b : Browser B} {C : Custody K b}
  {σ : Station C} {x : Share C.Charge} {α β : Type}

/-! ### Attempts -/

/-- The result is of the kind that the operation has. -/
def Gives {H : Type} : Operation → Option H → Prop
  | .find, result => ∃ handle, result = some handle
  | _, result => result = none

/-- What an attempt leaves to whoever made it. -/
theorem spec_attempt (l : Locator B.Page) (op : Operation) (i : Interrupt) (hx : x.Seeks σ i.token) :
    Spec σ x (l.attempt b op i) fun r y =>
      y = { x with charges := C.chargeIn r + x.charges } ∧ ∀ v, r = .ok v → Gives op v := by
  unfold Locator.attempt
  refine (finds_resolve i l x hx).bind ?_ ?_
  · rintro handle y rfl
    by_cases hfind : op = .find
    · subst hfind
      refine Spec.pure ⟨rfl, ?_⟩
      rintro v hv
      exact ⟨handle, (Except.ok.inj hv).symm⟩
    · have hgives : ∀ v : Option B.Handle, v = none → Gives op v := by
        rintro v rfl
        cases op with
        | find => exact absurd rfl hfind
        | _ => rfl
      have hact : Spec σ { x with charges := C.charge handle + x.charges } (do
          let outcome ← ((i.guard (Locator.act b.realm l.options handle op)).protect
            [releaseDuty handle]).attempt
          (b.realm.releaseIn handle).protect [releaseDuty handle]
          Action.ofExcept outcome
          return none : B.Action (Option B.Handle)) fun r y =>
          y = { x with charges := C.chargeIn r + x.charges } ∧ ∀ v, r = .ok v → Gives op v := by
        refine Spec.attemptGuard (m := fun _ => 0) hx (fun _ => rfl)
          (idles_act C handle l.options op) fun outcome => ?_
        refine Spec.releaseIn (zero_add _) ?_ _
        cases outcome with
        | ok done =>
          refine Spec.pure ⟨?_, fun v hv => hgives v (Except.ok.inj hv).symm⟩
          exact congrArg (fun g => { x with charges := g }) (zero_add x.charges).symm
        | error e =>
          refine Spec.throw ⟨?_, nofun⟩
          exact congrArg (fun g => { x with charges := g }) (zero_add x.charges).symm
      cases op with
      | find => exact absurd rfl hfind
      | _ => exact hact
  · rintro e y rfl
    exact ⟨rfl, nofun⟩

/-! ### Where an operation is under way -/

section Inside

variable {tl : Timeline B.signature K.World} {others : Multiset (Share C.Charge)} {e : Errand}

/-- What an operation holds that has found something. -/
abbrev Share.carrying {γ : Type} (e : Errand) (charges : Multiset γ) : Share γ :=
  { (Share.ofErrand e : Share γ) with charges := charges }

/-- Inside of an operation, which has the duty to say that it has ended if that matters. -/
abbrev Station.inside (σ : Station C) (e : Errand) : Station C :=
  σ.within (e.ended.toList.map Duty.cancel)

theorem seeks_ofErrand (hrole : σ.role = .foreground) (haround : σ.around = []) :
    (Share.ofErrand e : Share C.Charge).Seeks (σ.inside e) e.interrupt.token := by
  have hsettled : Discharged C.toAccount (σ.inside e).around (.ofErrand e) := by
    show Discharged C.toAccount (e.ended.toList.map Duty.cancel ++ σ.around) _
    rw [haround, List.append_nil]
    rcases hended : e.ended with _ | t
    · refine .nothing rfl rfl rfl rfl ?_
      rintro e' he'
      obtain rfl := Option.some.inj he'
      exact hended
    · exact .ended rfl hended rfl rfl (.nothing rfl rfl rfl rfl nofun)
  exact ⟨rfl, rfl, Or.inl rfl, rfl, fun hb => absurd (hrole.symm.trans hb) nofun,
    fun _ => hsettled⟩

/-- How the attempts of an operation come to an end: with a result, or with the reason why the
operation was interrupted, and only when it was. -/
def Errand.Concludes (e : Errand) (P : α → Prop) (tl : Timeline B.signature K.World) :
    Except Error α → Prop
  | .ok v => P v
  | .error err => tl.tokens.isCancelled e.interrupt.token = true ∧
      err = verdict e.interrupt (tl.tokens.isCancelled e.interrupt.expired)

theorem goes_interruption {Q : Post C (Except Error (Option Error))} {i : Interrupt} :
    Goes σ Q (i.interruption : B.Action (Option Error)).outcome others tl ↔
      Q (.ok (if tl.isCancelled i.token = true
        then some (verdict i (tl.isCancelled i.expired)) else none)) others tl := by
  have houtcome : (i.interruption : B.Action (Option Error)).outcome = Activity.bind
      (Activity.perform (.isCancelled i.token)) fun stopped : Bool =>
        (if stopped = true then do return some (← i.error) else return none :
          B.Action (Option Error)).outcome := outcome_lift_bind _ _
  rw [houtcome]
  refine goes_isCancelled.trans ?_
  rcases hc : tl.isCancelled i.token with _ | _
  · exact Iff.rfl
  · rw [if_pos rfl, if_pos rfl, outcome_bind]
    exact goes_error

/-- To pause takes nothing but time, and an error comes out only if the operation was interrupted. -/
theorem goes_pause (hrole : σ.role = .foreground) (haround : σ.around = [])
    (hb : σ.Holds tl (.ofErrand e ::ₘ others)) :
    Goes (σ.inside e) (fun r others after => σ.Holds after (.ofErrand e ::ₘ others) ∧
        e.Concludes (fun _ => tl.clock + retryDelay ≤ after.clock) after r)
      (e.interrupt.pause : B.Action Unit).outcome others tl := by
  have hx : (Share.ofErrand e).Seeks (σ.inside e) e.interrupt.token := seeks_ofErrand hrole haround
  have hhalt : ∀ others after, σ.Holds after (.ofErrand e ::ₘ others) →
      after.isCancelled e.interrupt.token = true →
      Goes (σ.inside e) (fun r others after => σ.Holds after (.ofErrand e ::ₘ others) ∧
          e.Concludes (fun _ => tl.clock + retryDelay ≤ after.clock) after r)
        (Interrupt.fail e.interrupt : B.Action Unit).outcome others after := by
    intro others after hb hc
    have houtcome : (e.interrupt.fail : B.Action Unit).outcome = _ :=
      outcome_bind e.interrupt.error _
    rw [houtcome, goes_error]
    exact ⟨hb, hc, rfl⟩
  refine goes_unlessCancelled (hhalt others tl hb) fun hlive => ?_
  refine (goes_ask rfl rfl).mpr (goes_wait (hx.parked nofun) hx.settled ?_ hb (fun _ => rfl) ?_ ?_)
  · intro s hs
    rw [List.mem_singleton.mp hs]
    exact ⟨((balanced_cons.mp hb).seat_range hx.seat).2, hlive⟩
  · intro after others' s hs _ hheld hc
    obtain rfl : s = e.interrupt.token := List.mem_singleton.mp hs
    simp only [dite_true]
    exact hhalt others' after hheld hc
  · intro after others' a later _ hheld _ hp
    cases Timeline.performs hp with
    | sleepUntil htime => exact ⟨hheld, htime⟩

/-- An operation that has no time left makes no further attempt. -/
def Errand.InTime (e : Errand) (fuel clock : Nat) : Prop :=
  0 < e.interrupt.timeout → e.began + e.interrupt.timeout < clock + retryDelay * fuel

/-- Who holds nothing may wait for ever. -/
theorem goes_forever {Q : Post C β} {duties : List (Duty B.signature)} {next : Empty → B.Task β}
    {stop : (t : Token) → t ∈ ([] : List Token) → B.Task β}
    (hduties : duties ++ σ.around = []) (hb : σ.Holds tl (.nothing ::ₘ others)) :
    Goes σ Q (.ask .forever [] duties next stop) others tl := by
  refine goes_wait (parked_nothing _ nofun) (fun _ => ?_) nofun hb (fun _ => rfl) nofun nofun
  rw [hduties]
  exact .nothing rfl rfl rfl rfl nofun

/-- The attempts of an operation hold the handle that was found, and end with it or for a reason. -/
theorem goes_attempts (hrole : σ.role = .foreground) (haround : σ.around = []) (l : Locator B.Page)
    (op : Operation) {fuel : Nat} (hended : e.interrupt.timeout = 0 → e.ended = none)
    (hfuel : e.InTime fuel tl.clock) (hb : σ.Holds tl (.ofErrand e ::ₘ others)) :
    Goes (σ.inside e) (fun r others tl =>
        σ.Holds tl (.carrying e (C.chargeIn r) ::ₘ others) ∧
          e.Concludes (Gives op) tl r)
      (l.attempts b op e.interrupt fuel).outcome others tl := by
  induction fuel generalizing tl others with
  | zero =>
    -- Only without a limit are there no attempts left: who will never go on gives up the seat.
    have hzero : e.interrupt.timeout = 0 := by
      by_contra hne
      rcases (hb.errands.sound e (by simp [Share.ofErrand])).limit with ⟨hzero, -⟩ | ⟨hpos, -, hle⟩
      · exact hne hzero
      · have htime := hfuel hpos
        simp only [Nat.mul_zero, Nat.add_zero] at htime
        omega
    have hfinished : σ.Holds tl (.nothing ::ₘ others) :=
      balanced_cons.mpr ((balanced_cons.mp hb).finish rfl rfl)
    refine goes_forever ?_ hfinished
    show e.ended.toList.map Duty.cancel ++ σ.around = []
    rw [hended hzero, haround]
    rfl
  | succ fuel ih =>
    have hx : (Share.ofErrand e).Seeks (σ.inside e) e.interrupt.token := seeks_ofErrand hrole haround
    unfold Locator.attempts
    refine goes_andThen ?_
    refine (((spec_attempt l op e.interrupt hx).attempt tl others hb).clock (Nat.le_refl _)).mono ?_
    rintro r others mid ⟨⟨y, ⟨result, rfl, rfl, hgives⟩, hb⟩, hclock⟩
    cases result with
    | ok v =>
      have hheld : σ.Holds mid
          (.carrying e (C.chargeIn (.ok v) + 0) ::ₘ others) := hb
      rw [add_zero] at hheld
      exact ⟨hheld, hgives v rfl⟩
    | error err =>
      refine goes_andThen (goes_interruption.mpr ?_)
      rcases hc : mid.isCancelled e.interrupt.token with _ | _
      · refine goes_andThen ((goes_pause hrole haround hb).mono ?_)
        rintro r others after ⟨hb, hconcludes⟩
        cases r with
        | ok done =>
          refine ih (fun hpos => ?_) hb
          have htime : mid.clock + retryDelay ≤ after.clock := hconcludes
          have hbound := hfuel hpos
          rw [Nat.mul_succ] at hbound
          omega
        | error err => exact ⟨hb, hconcludes⟩
      · exact ⟨hb, hc, rfl⟩

end Inside

/-! ### The beginning of an operation -/

section Begin

variable {A : Account K} {made : Nat} {base : Multiset A.Charge} {others : Multiset (Share A.Charge)}
  {tl : Timeline B.signature K.World} {e : Errand}

/-- The tokens of a timeline with two more, one of them under the signal. -/
def withTwo (tokens : Tokens) (signal : Option Token) : Tokens :=
  ((tokens.make signal).2.make none).2

theorem count_withTwo (tokens : Tokens) (signal : Option Token) :
    (withTwo tokens signal).count = tokens.count + 2 := by
  unfold withTwo
  rw [Tokens.count_make, Tokens.count_make]

/-- Nothing stands under a token that was just made. -/
theorem children_withTwo (tokens : Tokens) (signal : Option Token) :
    (withTwo tokens signal).children tokens.count = [] := by
  unfold withTwo
  rw [Tokens.children_make, if_neg (by simp), Tokens.children_make,
    if_neg fun hc => Nat.lt_irrefl _ hc.2, Tokens.children_eq_nil (Nat.le_refl _)]

/-- The tokens of everybody were made before. -/
theorem Balanced.old (hb : Balanced A made base tl others) :
    (∀ t ∈ tokensOf others, t < tl.tokens.count) ∧
      ∀ e ∈ errandsOf others + timersOf others, ∀ t ∈ e.tokens, t < tl.tokens.count :=
  ⟨fun t ht => (hb.range t ht).2, fun e he t ht => (hb.errands.range e he t ht).2⟩

/-- An operation without a time limit begins. -/
theorem Balanced.begin (hb : Balanced A made base tl others)
    (htoken : e.interrupt.token = tl.tokens.count)
    (hexpired : e.interrupt.expired = tl.tokens.count + 1) (hended : e.ended = none)
    (hsignal : ∀ s ∈ e.signal, s < made)
    (hlimit : e.interrupt.timeout = 0 ∧ e.interrupt.deadline = none) :
    Balanced A made base { tl with tokens := withTwo tl.tokens e.signal }
      (.ofErrand e ::ₘ others) := by
  have hmade : Fits A made base tl.world (boxes tl) (withTwo tl.tokens e.signal) tl.clock
      .nothing others :=
    ((balanced_cons.mp (Balanced.cons_nothing.mpr hb)).make hsignal).make nofun
  have hnew : ∀ t ∈ e.tokens, tl.tokens.count ≤ t ∧ t < (withTwo tl.tokens e.signal).count := by
    intro t ht
    rw [count_withTwo]
    rcases Errand.mem_tokens.mp ht with rfl | rfl | ht
    · rw [htoken]
      exact ⟨Nat.le_refl _, Nat.lt_add_of_pos_right (by decide)⟩
    · rw [hexpired]
      exact ⟨Nat.le_add_right _ _, Nat.lt_succ_self _⟩
    · rw [hended] at ht
      exact absurd ht (by simp)
  refine balanced_cons.mpr (hmade.begin hb.outside hnew hb.old.1 hb.old.2 ?_ ?_
    (Or.inl ⟨rfl, hlimit.2⟩))
  · rw [htoken]
    exact children_withTwo _ _
  · exact Errand.Sound.begin hb.forest htoken hexpired hended hsignal (Or.inl hlimit)

/-- An operation with a time limit begins, and somebody waits for its deadline. -/
theorem Balanced.beginLimited (hb : Balanced A made base tl others)
    (htoken : e.interrupt.token = tl.tokens.count)
    (hexpired : e.interrupt.expired = tl.tokens.count + 1)
    (hended : e.ended = some (tl.tokens.count + 2)) (hsignal : ∀ s ∈ e.signal, s < made)
    (hbegan : e.began = tl.clock) (hpos : 0 < e.interrupt.timeout)
    (hdeadline : e.interrupt.deadline = some (e.began + e.interrupt.timeout)) :
    Balanced A made base { tl with tokens := ((withTwo tl.tokens e.signal).make none).2 }
      (.ofErrand e ::ₘ .ofTimer e ::ₘ others) := by
  have hmade : Fits A made base tl.world (boxes tl) (withTwo tl.tokens e.signal) tl.clock
      .nothing others :=
    ((balanced_cons.mp (Balanced.cons_nothing.mpr hb)).make hsignal).make nofun
  have hmade : Fits A made base tl.world (boxes tl) ((withTwo tl.tokens e.signal).make none).2
      tl.clock .nothing others := hmade.make nofun
  have hnew : ∀ t ∈ e.tokens,
      tl.tokens.count ≤ t ∧ t < ((withTwo tl.tokens e.signal).make none).2.count := by
    intro t ht
    rw [Tokens.count_make, count_withTwo]
    rcases Errand.mem_tokens.mp ht with rfl | rfl | ht
    · rw [htoken]
      exact ⟨Nat.le_refl _, Nat.lt_succ_of_lt (Nat.lt_add_of_pos_right (by decide))⟩
    · rw [hexpired]
      exact ⟨Nat.le_add_right _ _, Nat.lt_succ_of_lt (Nat.lt_succ_self _)⟩
    · rw [← Option.some.inj (hended.symm.trans ht)]
      exact ⟨Nat.le_add_right _ _, Nat.lt_succ_self _⟩
  have hforest : (withTwo tl.tokens e.signal).Forest := (hb.forest.make e.signal).make none
  refine balanced_cons.mpr (hmade.begin hb.outside hnew hb.old.1 hb.old.2 ?_ ?_ (Or.inr rfl))
  · rw [htoken, Tokens.children_make, if_neg (by simp)]
    exact children_withTwo _ _
  · refine Errand.Sound.limited hforest ?_ ?_ ?_
    · have hlimit : tl.clock ≤ e.began + e.interrupt.timeout := by
        rw [hbegan]
        exact Nat.le_add_right _ _
      exact Errand.Sound.begin (e := { e with ended := none }) hb.forest htoken hexpired rfl hsignal
        (Or.inr ⟨hpos, hdeadline, hlimit⟩)
    · intro t ht
      rw [count_withTwo]
      rcases Errand.mem_tokens.mp ht with rfl | rfl | ht
      · show e.interrupt.token < _
        rw [htoken]
        exact Nat.lt_add_of_pos_right (by decide)
      · show e.interrupt.expired < _
        rw [hexpired]
        exact Nat.lt_succ_self _
      · exact absurd ht (by simp)
    · rw [count_withTwo]
      exact hended

end Begin

/-! ### The end of an operation -/

section End

variable {tl : Timeline B.signature K.World} {others : Multiset (Share C.Charge)}

/-- An operation that was started at a time ended as it may: in time, or with an error that its
deadline or its signal has brought about. -/
def Answers (timeout : Nat) (signal : Option Token) (began : Nat)
    (tl : Timeline B.signature K.World) : Except Error α → Prop
  | .ok _ => 0 < timeout → tl.clock ≤ began + timeout
  | .error err =>
    (0 < timeout ∧ tl.clock = began + timeout ∧
      err = .timeout ("Timed out after waiting " ++ toString timeout ++ "ms")) ∨
    (err = .cancelled ∧ ∃ s ∈ signal, tl.tokens.isCancelled s = true)

/-- An operation is in time, unless it has no limit. -/
theorem Errand.Sound.inTime {made clock : Nat} {tokens : Tokens} {e : Errand}
    (h : e.Sound made tokens clock) (hpos : 0 < e.interrupt.timeout) :
    clock ≤ e.began + e.interrupt.timeout := by
  rcases h.limit with ⟨hzero, -⟩ | ⟨-, -, hle⟩
  · exact absurd hzero (Nat.ne_of_gt hpos)
  · exact hle

/-- An operation is interrupted by its deadline or by its signal. -/
theorem Errand.Sound.interrupted {made clock : Nat} {tokens : Tokens} {e : Errand}
    (h : e.Sound made tokens clock) (hc : tokens.isCancelled e.interrupt.token = true) :
    (tokens.isCancelled e.interrupt.expired = true ∧ 0 < e.interrupt.timeout ∧
        clock = e.began + e.interrupt.timeout) ∨
      (tokens.isCancelled e.interrupt.expired = false ∧ ∃ s ∈ e.signal, tokens.isCancelled s = true) := by
  rcases hx : tokens.isCancelled e.interrupt.expired with _ | _
  · refine Or.inr ⟨rfl, (h.token hc).resolve_left fun hx' => ?_⟩
    exact Bool.eq_false_iff.mp hx hx'
  · obtain ⟨hpos, hover⟩ := h.expired hx
    exact Or.inl ⟨rfl, hpos, Nat.le_antisymm (h.inTime hpos) hover⟩

/-- The reason an operation gives is true. -/
theorem Errand.Sound.answers {made : Nat} {e : Errand} {P : α → Prop} {r : Except Error α}
    (hs : e.Sound made tl.tokens tl.clock) (hr : e.Concludes P tl r) :
    Answers e.interrupt.timeout e.signal e.began tl r := by
  cases r with
  | ok v => exact hs.inTime
  | error err =>
    obtain ⟨hc, rfl⟩ := hr
    rcases hs.interrupted hc with ⟨hx, hpos, hclock⟩ | ⟨hx, hsignal⟩
    · rw [hx]
      exact Or.inl ⟨hpos, hclock, rfl⟩
    · rw [hx]
      exact Or.inr ⟨rfl, hsignal⟩

/-- To cancel one more token makes no reason false. -/
theorem Answers.cancel {timeout began : Nat} {signal : Option Token} {r : Except Error α}
    (h : Answers timeout signal began tl r) (t : Token) :
    Answers timeout signal began (tl.cancel t) r := by
  have hclock : (tl.cancel t).clock = tl.clock := (Timeline.cancel_sameBut tl t).clock
  cases r with
  | ok v =>
    intro hpos
    rw [hclock]
    exact h hpos
  | error err =>
    rcases h with ⟨hpos, htime, herr⟩ | ⟨herr, s, hs, hc⟩
    · exact Or.inl ⟨hpos, hclock.trans htime, herr⟩
    · exact Or.inr ⟨herr, s, hs, (Timeline.isCancelled_cancel tl t s).mpr (Or.inr hc)⟩

/-- The operation was started so. -/
structure Errand.Started (e : Errand) (timeout : Nat) (signal : Option Token) (time : Nat) : Prop where
  timeout : e.interrupt.timeout = timeout
  signal : e.signal = signal
  began : e.began = time
  /-- Without a limit nobody has to be told of its end. -/
  ended : e.interrupt.timeout = 0 → e.ended = none

/-- An operation that keeps the discipline under its tokens does so as a whole; what is true when it
ends stays true when its end is made known. -/
theorem goes_within {timeout : Nat} {signal : Option Token} {m : Except Error α → Multiset C.Charge}
    {R : Except Error α → Timeline B.signature K.World → Prop} {body : Interrupt → B.Action α}
    (hsignal : ∀ s ∈ signal, s < σ.made)
    (hstable : ∀ r tl t, R r tl → R r (tl.cancel t)) (hb : σ.Holds tl others)
    (hbody : ∀ (e : Errand) after others, e.Started timeout signal tl.clock → after.clock = tl.clock →
      σ.Holds after (.ofErrand e ::ₘ others) →
      Goes (σ.inside e) (fun r others after =>
          σ.Holds after (.carrying e (m r) ::ₘ others) ∧ R r after)
        (body e.interrupt).outcome others after) :
    Goes σ (fun r others after => σ.Holds after (.ofCharges (m r) ::ₘ others) ∧ R r after)
      (Interrupt.within timeout signal body).outcome others tl := by
  unfold Interrupt.within
  refine (outcome_perform_bind _ _) ▸ goes_newToken.mpr ?_
  refine (outcome_perform_bind _ _) ▸ goes_newToken.mpr ?_
  by_cases hzero : timeout = 0
  · subst hzero
    set e : Errand := ⟨⟨tl.tokens.count, (tl.tokens.make signal).2.count, none, 0⟩, none, signal,
      tl.clock⟩
    have hbegun := Balanced.begin (e := e) hb rfl (Tokens.count_make _ _) rfl hsignal ⟨rfl, rfl⟩
    refine (hbody e { tl with tokens := withTwo tl.tokens signal } others ⟨rfl, rfl, rfl, fun _ => rfl⟩
      rfl hbegun).mono ?_
    rintro r others after ⟨hb, hr⟩
    exact ⟨balanced_cons.mpr ((balanced_cons.mp hb).finish rfl rfl), hr⟩
  · rw [if_neg hzero]
    set e : Errand := ⟨⟨tl.tokens.count, (tl.tokens.make signal).2.count, some (tl.clock + timeout),
      timeout⟩, some (withTwo tl.tokens signal).count, signal, tl.clock⟩
    have hbegun := Balanced.beginLimited (e := e) hb rfl (Tokens.count_make _ _)
      (congrArg some (count_withTwo _ _)) hsignal rfl (Nat.pos_of_ne_zero hzero) rfl
    refine (outcome_perform_bind _ _) ▸ goes_clock.mpr ?_
    refine (outcome_perform_bind _ _) ▸ goes_newToken.mpr ?_
    refine (outcome_perform_bind _ _) ▸ goes_fork (Share.Starts.expire e _ _ rfl rfl) ?_
    have hforked : σ.Holds (Timeline.fork K
        { tl with tokens := ((withTwo tl.tokens signal).make none).2 }
        (.expire e.interrupt (withTwo tl.tokens signal).count))
        (.ofErrand e ::ₘ .ofTimer e ::ₘ others) := hbegun.ignores rfl rfl rfl rfl
    have hrun := Goes.protect (hbody e (Timeline.fork K
        { tl with tokens := ((withTwo tl.tokens signal).make none).2 }
        (.expire e.interrupt (withTwo tl.tokens signal).count)) (.ofTimer e ::ₘ others)
      ⟨rfl, rfl, rfl, fun h => absurd h hzero⟩ rfl hforked)
    refine goes_andThen (goes_bind.mpr (hrun.mono ?_))
    rintro r others after ⟨hb, hr⟩
    show Goes σ _ (do
      Action.cancel (withTwo tl.tokens signal).count
      Action.ofExcept r : B.Action α).outcome others after
    refine (outcome_perform_bind _ _) ▸ goes_cancel.mpr ?_
    rw [outcome_ofExcept]
    refine ⟨balanced_cancel.mpr ?_, hstable r after _ hr⟩
    exact (balanced_cons.mp hb).finishLimited rfl rfl (e := e) rfl rfl
      (cut_cancel after (withTwo tl.tokens signal).count) (Timeline.cancel_forest hb.forest _)

/-- The operation that is under way is sound. -/
theorem Balanced.sound {e : Errand} {g : Multiset C.Charge}
    (hb : σ.Holds tl (.carrying e g ::ₘ others)) :
    e.Sound σ.made tl.tokens tl.clock := hb.errands.sound e (by simp [Share.ofErrand])

end End

/-! ### What a caller may start -/

section Callers

variable {l : Locator B.Page} {signal : Option Token} {tl : Timeline B.signature K.World}
  {others : Multiset (Share C.Charge)} (hrole : σ.role = .foreground) (haround : σ.around = [])
  (hsignal : ∀ s ∈ signal, s < σ.made)

include hrole haround hsignal

theorem goes_run (op : Operation) (hb : σ.Holds tl others) :
    Goes σ (fun r others after => σ.Holds after (.ofCharges (C.chargeIn r) ::ₘ others) ∧
        Answers l.options.timeout signal tl.clock after r ∧ ∀ v, r = .ok v → Gives op v)
      (l.run b op signal).outcome others tl := by
  refine goes_within (R := fun r after =>
    Answers l.options.timeout signal tl.clock after r ∧ ∀ v, r = .ok v → Gives op v) hsignal
    (fun r tl t h => ⟨h.1.cancel t, h.2⟩) hb fun e after others he htime hb => ?_
  have hfuel : e.InTime (turns b.patience l.options.timeout retryDelay) after.clock := by
    intro hpos
    rw [he.timeout] at hpos ⊢
    rw [he.began, htime, turns, if_neg (Nat.ne_of_gt hpos)]
    have := Nat.div_add_mod l.options.timeout retryDelay
    have := Nat.mod_lt l.options.timeout (show 0 < retryDelay by decide)
    rw [Nat.mul_add]
    omega
  refine (goes_attempts hrole haround l op he.ended hfuel hb).mono ?_
  rintro r others after ⟨hb, hr⟩
  refine ⟨hb, ?_, ?_⟩
  · have hanswers := hb.sound.answers hr
    rwa [he.timeout, he.signal, he.began] at hanswers
  · rintro v rfl
    exact hr

theorem goes_waitHandle (hb : σ.Holds tl others) :
    Goes σ (fun r others after => σ.Holds after (.ofCharges (C.chargeOf r) ::ₘ others) ∧
        Answers l.options.timeout signal tl.clock after r)
      (l.waitHandle b signal).outcome others tl := by
  unfold Locator.waitHandle
  refine goes_andThen ((goes_run hrole haround hsignal .find hb).mono ?_)
  rintro r others after ⟨hb, hanswers, hgives⟩
  cases r with
  | ok result =>
    obtain ⟨handle, rfl⟩ := hgives result rfl
    exact ⟨hb, hanswers⟩
  | error err => exact ⟨hb, hanswers⟩

theorem goes_await (hb : σ.Holds tl others) :
    Goes σ (fun r others after => σ.Holds after (.ofCharges 0 ::ₘ others) ∧
        Answers l.options.timeout signal tl.clock after r)
      (l.wait b signal).outcome others tl := by
  unfold Locator.wait
  refine goes_andThen ((goes_waitHandle hrole haround hsignal hb).mono ?_)
  rintro r others after ⟨hb, hanswers⟩
  cases r with
  | ok handle => exact goes_release hb (add_zero _).symm fun w hw => ⟨hw, hanswers⟩
  | error err => exact ⟨hb, hanswers⟩

/-- An action on the element that is found leaves no handle. -/
theorem goes_act {op : Operation} (hop : op ≠ .find) (hb : σ.Holds tl others) :
    Goes σ (fun r others after => σ.Holds after (.ofCharges 0 ::ₘ others) ∧
        Answers l.options.timeout signal tl.clock after r)
      (l.perform b op signal).outcome others tl := by
  unfold Locator.perform
  refine goes_andThen ((goes_run hrole haround hsignal op hb).mono ?_)
  rintro r others after ⟨hb, hanswers, hgives⟩
  cases r with
  | ok result =>
    have hnone : result = none := by
      cases op with
      | find => exact absurd rfl hop
      | _ => exact hgives result rfl
    subst hnone
    exact ⟨hb, hanswers⟩
  | error err => exact ⟨hb, hanswers⟩

omit hrole haround hsignal in
/-- To look at the value behind a handle changes nothing. -/
theorem spec_jsonValue (h : B.Handle) : Spec σ x (b.realm.jsonValue h) fun _ y => y = x := by
  intro tl others hb
  have hfits := balanced_cons.mp hb
  refine goes_prompt (C.jsonValue h _ _ hfits.ledger) fun r w hw => ⟨x, rfl, ?_⟩
  exact balanced_cons.mpr (hfits.ask hw)

theorem spec_waitValue : Spec σ .nothing (l.waitValue b signal) fun _ y => y = .ofCharges 0 := by
  have hfound : Spec σ .nothing (l.waitHandle b signal) fun r y => y = .ofCharges (C.chargeOf r) := by
    intro tl others hb
    refine (goes_waitHandle hrole haround hsignal (Balanced.cons_nothing.mp hb)).mono ?_
    exact fun r others after h => ⟨_, rfl, h.1⟩
  unfold Locator.waitValue
  refine hfound.bind ?_ fun e y hy => hy
  rintro handle y rfl
  refine (spec_jsonValue handle).protect.attempt.bind ?_ ?_
  · rintro value y ⟨o, -, rfl⟩
    refine Spec.releaseIn (add_zero _).symm ?_ _
    exact Spec.ofExcept rfl
  · rintro e y ⟨o, ho, -⟩
    exact absurd ho (by simp)

theorem spec_waitAs {reader : Json.Reader α} :
    Spec σ .nothing (l.waitAs reader b signal) fun _ y => y = .ofCharges 0 := by
  unfold Locator.waitAs
  refine (spec_waitValue hrole haround hsignal).bind ?_ fun e y hy => hy
  rintro value y rfl
  split
  · exact Spec.pure rfl
  · exact Spec.throw rfl

end Callers

end Wayfind.Keeping
