/-
The discipline of the activities of locators, and its rules.

An activity may be suspended while it looks from a seat whose token interrupts it, while
it takes what is due from a race, or while it holds nothing; and who may be dropped has
duties that settle everything it holds (`Discharged`).  `Spec` states what an action does
to the share of whoever runs it; the rules follow the actions a locator is made of.

All this is said of any page side that keeps account of its handles (`Custody`).
-/
import Wayfind.Proofs.Activity.Logic
import Wayfind.Proofs.Keeping.Balance

namespace Wayfind.Keeping

open Activity (Token Inbox Tokens Request Duty Timeline Discipline Role Runs Prompt)
open Activity.Timeline (watched)
open PageSide (Action releaseDuty)

variable {B : PageSide} {K : Activity.Backend B.signature} {b : Browser B} {α β : Type}

/-! ### Page sides that keep account -/

/-- A page side that keeps account of its handles: whatever locators ask of its pages and its realm
brings a handle or changes no account, and to release a handle settles its charges at once. -/
structure Custody (K : Activity.Backend B.signature) (b : Browser B) extends Account K where
  /-- Work of the page side that may come from outside. -/
  Expected : B.Chore → Prop
  ofChore : B.Chore → B.Task Unit
  start : K.start = Job.activity b ofChore
  discard : K.discard = discardFound
  chores : ∀ c, Expected c → ∃ time p,
    ofChore c = Activity.bind (Activity.perform (.sleepUntil time)) (fun _ => p) ∧
    ∀ w rest, Owes w rest → Prompt K (fun _ => False) (fun _ v => Owes v rest) p w
  calm : ∀ h, watched (b.realm.release h) = []
  release : ∀ h w rest, Owes w (charge h + rest) →
    Prompt K (fun _ => False) (fun _ v => Owes v rest) (b.realm.release h) w
  jsonValue : ∀ h w rest, Owes w rest →
    Prompt K (fun _ => False) (fun _ v => Owes v rest) (b.realm.jsonValue h).outcome w
  waitForSelector : ∀ page selector wait,
    Brings toAccount 0 (b.pages.waitForSelector page selector wait) toAccount.chargeIn
  waitForFunction : ∀ page script wait,
    Brings toAccount 0 (b.pages.waitForFunction page script wait []) toAccount.chargeOf
  waitFor : ∀ script wait h,
    Brings toAccount 0 (b.realm.waitFor script wait [] [.handle h]) toAccount.chargeOf
  evaluateHandle : ∀ h script, Brings toAccount 0 (b.realm.evaluateHandle h script []) toAccount.chargeOf
  evaluate : ∀ h script args, Idles toAccount (b.realm.evaluate h script args)
  click : ∀ h options, Idles toAccount (b.realm.click h options)
  hover : ∀ h, Idles toAccount (b.realm.hover h)
  focus : ∀ h, Idles toAccount (b.realm.focus h)
  typeText : ∀ h text, Idles toAccount (b.realm.typeText h text)
  select : ∀ h values, Idles toAccount (b.realm.select h values)
  scrollIntoView : ∀ h, Idles toAccount (b.realm.scrollIntoView h)
  isIntersecting : ∀ h part, Idles toAccount (b.realm.isIntersecting h part)

/-! ### The discipline -/

/-- The share an activity may be suspended with at a request. -/
structure Share.Parked {γ : Type} (role : Role) (x : Share γ) (r : Request B.signature)
    (watched : List Token) : Prop where
  due : ∀ d ∈ x.due, r = .take d.inbox ∧ 0 < d.count
  /-- Nobody takes what is not due to him. -/
  takes : ∀ inbox, r = .take inbox → x.due.isSome = true
  seat : ∀ t ∈ x.seat, t ∈ watched ∨ x.due.isSome = true
  /-- Who has a seat is under way or has still to post. -/
  active : x.seat.isSome = true → x.errand.isSome = true ∨ x.posts.isSome = true
  bare : x.seat = none → x.charges = 0
  timer : ∀ e ∈ x.timer, ∃ deadline, e.interrupt.deadline = some deadline ∧ r = .sleepUntil deadline
  /-- No operation is carried out in the background. -/
  aside : role = .background → x.errand = none

/-- Whoever is dropped with such duties has settled everything it held: handles are released, a race
is given up, and an operation is ended. -/
inductive Discharged (A : Account K) : List (Duty B.signature) → Share A.Charge → Prop where
  | nothing {x : Share A.Charge} (hcharges : x.charges = 0) (hdue : x.due = none)
      (hposts : x.posts = none) (htimer : x.timer = none) (hended : ∀ e ∈ x.errand, e.ended = none) :
      Discharged A [] x
  | release {x : Share A.Charge} {h : B.Handle} {rest : Multiset A.Charge}
      {duties : List (Duty B.signature)} (hx : x.charges = A.charge h + rest)
      (hrest : Discharged A duties { x with charges := rest }) :
      Discharged A (releaseDuty h :: duties) x
  | race {x : Share A.Charge} {d : Due} {duties : List (Duty B.signature)} (hd : x.due = some d)
      (hrest : Discharged A duties { x with due := none }) :
      Discharged A (.close d.inbox :: .cancel d.race :: duties) x
  | ended {x : Share A.Charge} {e : Errand} {t : Token} {duties : List (Duty B.signature)}
      (he : x.errand = some e) (ht : e.ended = some t) (hdue : x.due = none) (hposts : x.posts = none)
      (hrest : Discharged A duties { x with errand := none, seat := none }) :
      Discharged A (.cancel t :: duties) x

/-- The share a job starts with. -/
inductive Share.Starts (C : Custody K b) (made : Nat) :
    Job B.Handle B.Page B.Chore → Share C.Charge → Prop where
  | release (h : B.Handle) : Starts C made (.release h) (.ofCharges (C.charge h))
  | expire (e : Errand) (ended : Token) (deadline : Nat) (h : e.ended = some ended)
      (hd : e.interrupt.deadline = some deadline) :
      Starts C made (.expire e.interrupt ended) (.ofTimer e)
  | branch (l : Locator B.Page) (i : Interrupt) (inbox : Inbox) (race : Token) :
      Starts C made (.branch l i inbox) (.ofBranch i.token inbox race)
  | drain (inbox : Inbox) (race : Token) (count : Nat) :
      Starts C made (.drain inbox count) { Share.nothing with due := some ⟨inbox, race, count⟩ }
  /-- Only tokens from before are cancelled from outside. -/
  | cancelAt (time : Nat) (t : Token) (h : t < made) : Starts C made (.cancelAt time t) .nothing
  | chore (c : B.Chore) (h : C.Expected c) : Starts C made (.chore c) .nothing

/-- Activities of a page side share what there is, and who may be dropped in the foreground has duties
that settle its share. -/
def keeping (C : Custody K b) (made : Nat) (base : Multiset C.Charge) : Discipline K where
  Share := Share C.Charge
  Holds tl shares := Balanced C.toAccount made base tl shares
  Parked role x r watched duties :=
    x.Parked role r watched ∧ (role = .foreground → Discharged C.toAccount duties x)
  Starts := Share.Starts C made
  ignores hworld hclock htokens hinboxes h := h.ignores hworld hclock htokens hinboxes

/-- Where an activity runs: in the foreground or not, since when tokens are counted, on top of which
charges, and with which duties around it. -/
structure Station (C : Custody K b) where
  role : Role
  made : Nat
  base : Multiset C.Charge
  around : List (Duty B.signature)

namespace Station

variable {C : Custody K b}

/-- The shares fit together, as seen from there. -/
abbrev Holds (σ : Station C) (tl : Timeline B.signature K.World) (shares : Multiset (Share C.Charge)) :
    Prop :=
  Balanced C.toAccount σ.made σ.base tl shares

/-- Inside of further duties. -/
abbrev within (σ : Station C) (duties : List (Duty B.signature)) : Station C :=
  { σ with around := duties ++ σ.around }

end Station

variable {C : Custody K b} {σ : Station C}

/-- A condition on how an activity ends. -/
abbrev Post (C : Custody K b) (α : Type) : Type :=
  α → Multiset (Share C.Charge) → Timeline B.signature K.World → Prop

/-- The activity keeps the discipline and ends as it should. -/
def Goes (σ : Station C) (Q : Post C α) (p : B.Task α) (others : Multiset (Share C.Charge))
    (tl : Timeline B.signature K.World) : Prop :=
  Runs ((keeping C σ.made σ.base).within σ.around) σ.role Q p others tl

section Goes

variable {Q : Post C β} {others : Multiset (Share C.Charge)} {tl : Timeline B.signature K.World}

theorem goes_bind {p : B.Task α} {f : α → B.Task β} :
    Goes σ Q (Activity.bind p f) others tl ↔
      Goes σ (fun a others tl => Goes σ Q (f a) others tl) p others tl :=
  Activity.runs_bind

theorem Goes.mono {Q' : Post C β} {p : B.Task β} (h : Goes σ Q p others tl)
    (hQ : ∀ v others tl, Q v others tl → Q' v others tl) : Goes σ Q' p others tl :=
  Runs.mono h hQ

theorem Goes.protect {p : B.Task β} {duties : List (Duty B.signature)}
    (h : Goes (σ.within duties) Q p others tl) : Goes σ Q (Activity.protect duties p) others tl :=
  Runs.protect h

/-- A request that is answered at once and sets nothing off. -/
theorem goes_ask {r : Request B.signature} {watched : List Token}
    {duties : List (Duty B.signature)} {next : r.Answer → B.Task β}
    {stop : (t : Token) → t ∈ watched → B.Task β} {a : r.Answer}
    {after : Timeline B.signature K.World} (hp : Timeline.perform K tl r = some (a, after))
    (hjobs : Timeline.jobsOf K tl r = []) :
    Goes σ Q (.ask r watched duties next stop) others tl ↔ Goes σ Q (next a) others after :=
  Activity.runs_ask hp hjobs

/-- A request that may have to wait. -/
theorem goes_wait {r : Request B.signature} {watched : List Token}
    {duties : List (Duty B.signature)} {next : r.Answer → B.Task β}
    {stop : (t : Token) → t ∈ watched → B.Task β} {share : Share C.Charge}
    (hparked : share.Parked σ.role r watched)
    (hdrop : σ.role = .foreground → Discharged C.toAccount (duties ++ σ.around) share)
    (hwatch : ∀ t ∈ watched, t < tl.tokens.count ∧ tl.isCancelled t = false)
    (hholds : σ.Holds tl (share ::ₘ others))
    (hjobs : ∀ tl, Timeline.jobsOf K tl r = [])
    (hstop : ∀ after others' t h, Timeline.Later tl after → σ.Holds after (share ::ₘ others') →
      after.isCancelled t = true → Goes σ Q (stop t h) others' after)
    (hnext : ∀ after others' a later, Timeline.Later tl after → σ.Holds after (share ::ₘ others') →
      (∀ t ∈ watched, after.isCancelled t = false) →
      Timeline.perform K after r = some (a, later) → Goes σ Q (next a) others' later) :
    Goes σ Q (.ask r watched duties next stop) others tl :=
  Activity.runs_wait (D := (keeping C σ.made σ.base).within σ.around) ⟨hparked, hdrop⟩ hwatch hholds
    hjobs hstop hnext

/-- A request that is answered at once and sets nothing off, and what follows. -/
theorem goes_perform {r : Request B.signature} {f : r.Answer → B.Task β} {a : r.Answer}
    {after : Timeline B.signature K.World} (hp : Timeline.perform K tl r = some (a, after))
    (hjobs : Timeline.jobsOf K tl r = []) :
    Goes σ Q (Activity.bind (Activity.perform r) f) others tl ↔ Goes σ Q (f a) others after :=
  Activity.runs_perform hp hjobs

theorem goes_clock {f : Nat → B.Task β} :
    Goes σ Q (Activity.bind (Activity.perform .clock) f) others tl ↔ Goes σ Q (f tl.clock) others tl :=
  goes_perform rfl rfl

theorem goes_isCancelled {t : Token} {f : Bool → B.Task β} :
    Goes σ Q (Activity.bind (Activity.perform (.isCancelled t)) f) others tl ↔
      Goes σ Q (f (tl.isCancelled t)) others tl :=
  goes_perform rfl rfl

theorem goes_newToken {parent : Option Token} {f : Token → B.Task β} :
    Goes σ Q (Activity.bind (Activity.perform (.newToken parent)) f) others tl ↔
      Goes σ Q (f tl.tokens.count) others { tl with tokens := (tl.tokens.make parent).2 } :=
  goes_perform rfl rfl

theorem goes_newInbox {f : Inbox → B.Task β} :
    Goes σ Q (Activity.bind (Activity.perform .newInbox) f) others tl ↔
      Goes σ Q (f (boxes tl).size) others { tl with inboxes := tl.inboxes.push ⟨[], false⟩ } :=
  goes_perform rfl rfl

theorem goes_cancel {t : Token} {f : Unit → B.Task β} :
    Goes σ Q (Activity.bind (Activity.perform (.cancel t)) f) others tl ↔
      Goes σ Q (f ()) others (tl.cancel t) :=
  goes_perform rfl rfl

theorem goes_discard {t : Token} {f : Unit → B.Task β} :
    Goes σ Q (Activity.bind (Activity.perform (.discard t)) f) others tl ↔
      Goes σ Q (f ()) others { tl with tokens := tl.tokens.discard t } :=
  goes_perform rfl rfl

/-- Forking a job gives its share away. -/
theorem goes_fork {job : Job B.Handle B.Page B.Chore} {f : Unit → B.Task β} {share : Share C.Charge}
    (hstart : Share.Starts C σ.made job share)
    (h : Goes σ Q (f ()) (share ::ₘ others) (tl.fork K job)) :
    Goes σ Q (Activity.bind (Activity.perform (.fork job)) f) others tl :=
  Activity.runs_fork hstart h

/-- What is prompt changes nothing but the world. -/
theorem goes_prompt {R : α → K.World → Prop} {Q : Post C α} {p : B.Task α}
    (h : Prompt K (fun _ => False) R p tl.world)
    (hQ : ∀ a v, R a v → Q a others { tl with world := v }) : Goes σ Q p others tl := by
  induction p generalizing tl with
  | done a => exact hQ a tl.world h
  | ask r ws duties next stop ihn ihs =>
    cases r with
    | query q =>
      obtain ⟨hjobs, hnext⟩ := h
      have hanswer : Timeline.perform K tl (.query q) =
          some ((K.answer q tl.world).1, { tl with world := (K.answer q tl.world).2.1 }) := by
        simp only [Timeline.perform, hjobs]
        rfl
      refine (goes_ask hanswer hjobs).mpr ?_
      exact ihn _ hnext hQ
    | clock => exact (goes_ask rfl rfl).mpr (ihn tl.clock (h tl.clock) hQ)
    | sleepUntil time => exact absurd h.1 id
    | _ => exact absurd h id

theorem goes_andThen {Q : Post C (Except Error β)} {a : B.Action α} {f : α → B.Action β}
    (h : Goes σ (fun r others tl => match r with
      | .ok v => Goes σ Q (f v).outcome others tl
      | .error e => Q (.error e) others tl) a.outcome others tl) :
    Goes σ Q (a >>= f).outcome others tl := by
  rw [outcome_bind, goes_bind]
  refine h.mono fun r others tl hr => ?_
  cases r with
  | ok v => exact hr
  | error e => exact hr

end Goes

/-! ### Specifications -/

/-- The action, run by somebody with such a share, ends with the share that its outcome goes with. -/
def Spec (σ : Station C) (x : Share C.Charge) (a : B.Action α)
    (Q : Except Error α → Share C.Charge → Prop) : Prop :=
  ∀ tl others, σ.Holds tl (x ::ₘ others) →
    Goes σ (fun r others tl => ∃ y, Q r y ∧ σ.Holds tl (y ::ₘ others)) a.outcome others tl

variable {x : Share C.Charge}

namespace Spec

theorem pure {a : α} {Q : Except Error α → Share C.Charge → Prop} (h : Q (.ok a) x) :
    Spec σ x (Pure.pure a) Q := fun _ _ hb => ⟨x, h, hb⟩

theorem throw {e : Error} {Q : Except Error α → Share C.Charge → Prop} (h : Q (.error e) x) :
    Spec σ x (MonadExcept.throw e) Q := fun _ _ hb => ⟨x, h, hb⟩

theorem bind {a : B.Action α} {f : α → B.Action β} {Q : Except Error α → Share C.Charge → Prop}
    {Q' : Except Error β → Share C.Charge → Prop} (ha : Spec σ x a Q)
    (hok : ∀ v y, Q (.ok v) y → Spec σ y (f v) Q')
    (herror : ∀ e y, Q (.error e) y → Q' (.error e) y) : Spec σ x (a >>= f) Q' := by
  intro tl others hb
  rw [outcome_bind, goes_bind]
  refine (ha tl others hb).mono ?_
  rintro r others tl ⟨y, hy, hb⟩
  cases r with
  | ok v => exact hok v y hy tl others hb
  | error e => exact ⟨y, herror e y hy, hb⟩

theorem attempt {a : B.Action α} {Q : Except Error α → Share C.Charge → Prop} (ha : Spec σ x a Q) :
    Spec σ x a.attempt fun r y => ∃ o, r = .ok o ∧ Q o y := by
  intro tl others hb
  have houtcome : a.attempt.outcome = Activity.bind a.outcome fun o => .done (.ok o) := rfl
  rw [houtcome, goes_bind]
  refine (ha tl others hb).mono ?_
  rintro r others tl ⟨y, hy, hb⟩
  exact ⟨y, ⟨r, rfl, hy⟩, hb⟩

theorem protect {a : B.Action α} {Q : Except Error α → Share C.Charge → Prop}
    {duties : List (Duty B.signature)} (ha : Spec (σ.within duties) x a Q) :
    Spec σ x (a.protect duties) Q := fun tl others hb => Goes.protect (ha tl others hb)

theorem ofExcept {r : Except Error α} {Q : Except Error α → Share C.Charge → Prop} (h : Q r x) :
    Spec σ x (Action.ofExcept r) Q := by
  intro tl others hb
  rw [outcome_ofExcept]
  exact ⟨x, h, hb⟩

end Spec

/-! ### Looking -/

/-- Somebody looks under a token, without a race of its own; and should it be dropped, the duties
around it settle what it holds. -/
structure Share.Seeks (σ : Station C) (x : Share C.Charge) (t : Token) : Prop where
  seat : x.seat = some t
  due : x.due = none
  active : x.errand.isSome = true ∨ x.posts.isSome = true
  timer : x.timer = none
  aside : σ.role = .background → x.errand = none
  settled : σ.role = .foreground → Discharged C.toAccount σ.around x

/-- Somebody who looks may hold a handle besides, with the duty to release it. -/
theorem Share.Seeks.withHandle {t : Token} (h : x.Seeks σ t) (handle : B.Handle) :
    ({ x with charges := C.charge handle + x.charges } : Share C.Charge).Seeks
      (σ.within [releaseDuty handle]) t :=
  ⟨h.seat, h.due, h.active, h.timer, h.aside, fun hrole => .release rfl (h.settled hrole)⟩

/-- Somebody who looks may wait, as long as the token interrupts the wait. -/
theorem Share.Seeks.parked {t : Token} (h : x.Seeks σ t) {r : Request B.signature}
    (hr : ∀ inbox, r ≠ .take inbox) : x.Parked σ.role r [t] := by
  refine ⟨?_, fun inbox htake => absurd htake (hr inbox), ?_, fun _ => h.active, ?_, ?_, h.aside⟩
  · intro d hd
    rw [h.due] at hd
    exact absurd hd (by simp)
  · intro s hs
    rw [h.seat] at hs
    exact Or.inl (by simpa using hs.symm)
  · intro hs
    rw [h.seat] at hs
    exact absurd hs (by simp)
  · intro e he
    rw [h.timer] at he
    exact absurd he (by simp)

/-- What is owed besides the charges of whoever asks. -/
def besides (base : Multiset C.Charge) (tl : Timeline B.signature K.World) (x : Share C.Charge)
    (others : Multiset (Share C.Charge)) : Multiset C.Charge :=
  base + (x.charges + chargesOf others) + enclosedAll C.chargeOf (boxes tl)

/-- The world goes on, and owes some charges more. -/
theorem Balanced.gain {made : Nat} {base : Multiset C.Charge} {tl : Timeline B.signature K.World}
    {others : Multiset (Share C.Charge)} (hb : Balanced C.toAccount made base tl (x ::ₘ others))
    {w : K.World} {g : Multiset C.Charge} (hw : C.Owes w (g + besides base tl x others)) :
    Balanced C.toAccount made base { tl with world := w }
      ({ x with charges := g + x.charges } ::ₘ others) := by
  refine balanced_cons.mpr ((balanced_cons.mp hb).ask ?_)
  refine (congrArg (C.Owes w) ?_).mpr hw
  unfold besides
  show base + (g + x.charges + chargesOf others) + _ = _
  ac_rfl

theorem Balanced.owes {made : Nat} {base : Multiset C.Charge} {tl : Timeline B.signature K.World}
    {others : Multiset (Share C.Charge)} (hb : Balanced C.toAccount made base tl (x ::ₘ others)) :
    C.Owes tl.world (besides base tl x others) :=
  (balanced_cons.mp hb).ledger

/-- What only asks and waits may be run under the token of whoever runs it: interrupted, it holds
nothing that anybody would have to release. -/
theorem Amid.guard {p : B.Task α} {t : Token} {halt : B.Task α} {Q : Post C α}
    {R : α → Multiset C.Charge → K.World → Prop} (hx : x.Seeks σ t)
    (hdone : ∀ a others tl, (∃ w, σ.Holds { tl with world := w } (x ::ₘ others)) →
      R a (besides σ.base tl x others) tl.world → Q a others tl)
    (hhalt : ∀ others tl, σ.Holds tl (x ::ₘ others) → tl.isCancelled t = true →
      Goes σ Q halt others tl)
    {others : Multiset (Share C.Charge)} {tl : Timeline B.signature K.World}
    (hp : Amid C.toAccount R p (besides σ.base tl x others) tl.world)
    (hb : ∃ w, σ.Holds { tl with world := w } (x ::ₘ others)) (hlive : tl.isCancelled t = false) :
    Goes σ Q (Activity.guard t halt p) others tl := by
  induction p generalizing others tl with
  | done a => exact hdone a others tl hb hp
  | ask r watched duties next stop ihn ihs =>
    -- A request that waits: the world owes the others everything.
    have hwait (hr : ∀ inbox, r ≠ .take inbox) (hduties : duties = []) (hwatched : watched = [])
        (howes : C.Owes tl.world (besides σ.base tl x others))
        (hjobs : ∀ tl, Timeline.jobsOf K tl r = [])
        (hnext : ∀ after others' a later, σ.Holds after (x ::ₘ others') →
          after.isCancelled t = false → Timeline.perform K after r = some (a, later) →
          Goes σ Q (Activity.guard t halt (next a)) others' later) :
        Goes σ Q (Activity.guard t halt (.ask r watched duties next stop)) others tl := by
      obtain ⟨w, hw⟩ := hb
      subst hduties hwatched
      have hheld : σ.Holds tl (x ::ₘ others) := by
        have hgain := hw.gain (w := tl.world) (g := 0) (by rw [zero_add]; exact howes)
        rw [zero_add] at hgain
        exact hgain
      refine goes_wait (hx.parked hr) hx.settled ?_ hheld hjobs ?_ ?_
      · intro s hs
        rw [List.mem_singleton.mp hs]
        exact ⟨((balanced_cons.mp hheld).seat_range hx.seat).2, hlive⟩
      · intro after others' s hs _ hheld hc
        obtain rfl : s = t := List.mem_singleton.mp hs
        simp only [dite_true]
        exact hhalt others' after hheld hc
      · exact fun after others' a later _ hheld hquiet hp =>
          hnext after others' a later hheld (hquiet t (List.mem_singleton_self t)) hp
    cases r with
    | query q =>
      obtain ⟨hjobs, hnext⟩ := hp
      have hanswer : Timeline.perform K tl (.query q) =
          some ((K.answer q tl.world).1, { tl with world := (K.answer q tl.world).2.1 }) := by
        simp only [Timeline.perform, hjobs]
        rfl
      refine (goes_ask hanswer hjobs).mpr ?_
      exact ihn _ hnext hb hlive
    | clock => exact (goes_ask rfl rfl).mpr (ihn _ (hp _) hb hlive)
    | announce =>
      have hanswer : Timeline.perform K tl .announce =
          some ((), { tl with announced := tl.announced + 1 }) := rfl
      refine (goes_ask hanswer rfl).mpr ?_
      obtain ⟨w, hw⟩ := hb
      exact ihn () hp ⟨w, hw.ignores rfl rfl rfl rfl⟩ hlive
    | sleepUntil time =>
      obtain ⟨hwatched, hduties, howes, hnext⟩ := hp
      refine hwait (by intro _ h; cases h) hduties hwatched howes (fun _ => rfl) fun after others' a later hheld hquiet hp => ?_
      cases Timeline.performs hp with
      | sleepUntil => exact ihn () (hnext _ _ hheld.owes) ⟨after.world, hheld⟩ hquiet
    | forever =>
      obtain ⟨hwatched, hduties, howes⟩ := hp
      exact hwait (by intro _ h; cases h) hduties hwatched howes (fun _ => rfl) fun _ _ a => Empty.elim a
    | _ => exact absurd hp id

end Wayfind.Keeping
