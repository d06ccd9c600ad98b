/-
What looking for an element asks for.

A request is `Modest` when it looks at the page, the clock or a token, or waits: nobody else
hears of it, no element is reached through a handle, and the page is not changed.  All that a
locator does with the page while it looks is modest.  To find a handle, and to work in the
background, also takes inboxes and jobs; every job forks only such as have a lower rank
(`asks_start`), for the branches of a race are smaller than the race, and none that changes
the page from outside.
-/
import Wayfind.Proofs.Activity.Lull
import Wayfind.Proofs.Simulation.Deeds
import Wayfind.Proofs.Page.Asking

namespace Wayfind.Simulation

open Activity (Token Inbox Request Duty Asks Innocent Issues asks_perform asks_andThen asks_ofExcept)
open PageSide (Action releaseDuty)

variable {patience : Nat} {α β : Type}

/-- The action asks only what is allowed, wherever it goes. -/
def Asking (P : Request side.signature → Prop) (a : side.Action α) : Prop := Asks P a.outcome

/-! ### Rules -/

section Rules

variable {P : Request side.signature → Prop}

theorem asking_pure (v : α) : Asking P (pure v : side.Action α) := trivial

theorem asking_throw (e : Error) : Asking P (throw e : side.Action α) := trivial

theorem Asking.bind {a : side.Action α} {f : α → side.Action β} (ha : Asking P a)
    (hf : ∀ v, Asking P (f v)) : Asking P (a >>= f) :=
  asks_andThen ha hf

theorem asking_lift {p : side.Task α} (hp : Asks P p) : Asking P (ExceptT.lift p) :=
  hp.bind fun _ => trivial

theorem asking_perform {r : Request side.signature} (hr : P r) : Asking P (Action.perform r) :=
  asking_lift (asks_perform hr)

theorem asking_ask {q : Query} (hq : P (.query q)) : Asking P (ask q) := asking_lift (asks_perform hq)

theorem asking_ofExcept (r : Except Error α) : Asking P (Action.ofExcept r : side.Action α) :=
  asks_ofExcept r

theorem Asking.attempt {a : side.Action α} (ha : Asking P a) : Asking P a.attempt :=
  asking_lift ha

theorem Asking.protect {a : side.Action α} (ha : Asking P a) {duties : List (Duty side.signature)}
    (hduties : ∀ d ∈ duties, P d.request) : Asking P (a.protect duties) :=
  Asks.protect ha hduties

theorem Asking.mono {P' : Request side.signature → Prop} {a : side.Action α} (ha : Asking P a)
    (h : ∀ r, P r → P' r) : Asking P' a :=
  Asks.mono ha h

/-- A question whose answer may be an error. -/
theorem asking_asked {q : Query} (hq : P (.query q)) (read : q.Answer → Except Error α) :
    Asking P (ask q >>= fun r => Action.ofExcept (read r)) :=
  Asking.bind (asking_ask hq) fun _ => asking_ofExcept _

/-! ### Whether an element is ready -/

variable (o : Locator.Options) {h : Handle}

theorem asking_inViewport (hlook : P (.query (Query.isInViewport h)))
    (hscroll : P (.query (Query.scrollIntoView h))) : Asking P (Readiness.inViewport (realm patience) o h) := by
  unfold Readiness.inViewport
  split
  · refine Asking.bind (asking_asked hlook id) fun inside => ?_
    split
    · exact asking_asked hscroll id
    · exact asking_pure ()
  · exact asking_pure ()

theorem asking_stable (hscript : P (.query (Query.evaluate h ElementScript.isStable []))) :
    Asking P (Readiness.stable (realm patience) o h) := by
  unfold Readiness.stable
  split
  · refine Asking.bind (asking_asked hscript id) fun verdict => ?_
    split
    · exact asking_pure ()
    · exact asking_throw _
  · exact asking_pure ()

theorem asking_enabled (hscript : P (.query (Query.evaluate h ElementScript.isDisabled []))) :
    Asking P (Readiness.enabled (realm patience) o h) := by
  unfold Readiness.enabled
  split
  · refine Asking.bind (asking_asked hscript id) fun verdict => ?_
    split
    · exact asking_throw _
    · exact asking_pure ()
  · exact asking_pure ()

end Rules

/-! ### Modest requests -/

/-- The question reaches no element through a handle and changes nothing from outside. -/
def Query.looks : Query → Bool
  | .evaluate .. | .click .. | .hover _ | .focus _ | .typeText .. | .select .. | .scrollIntoView _
  | .isInViewport _ | .change _ => false
  | _ => true

theorem Query.aside_of_looks {q : Query} (h : q.looks = true) : q.Aside := by
  cases q with
  | evaluate | click | hover | focus | typeText | select | scrollIntoView | isInViewport => exact absurd h nofun
  | _ => rfl

theorem Query.ne_change_of_looks {q : Query} (h : q.looks = true) (c : Change) : q ≠ .change c := by
  rintro rfl
  exact absurd h nofun

/-- The request is a question that only looks, or about the time or a token. -/
def Modest : Request side.signature → Prop
  | .query q => Query.looks q = true
  | .clock | .sleepUntil _ | .forever | .newToken _ | .isCancelled _ => True
  | _ => False

theorem modest_sleep (ms : Nat) : Asking Modest (Action.sleep ms : side.Action Unit) :=
  asking_lift (Asks.bind (asks_perform trivial) fun _ => asks_perform trivial)

theorem modest_clock : Asking Modest (Action.clock : side.Action Nat) := asking_perform trivial

theorem modest_error (i : Interrupt) : Asking Modest (i.error : side.Action Error) := by
  refine Asking.bind (asking_perform trivial) fun late => ?_
  split
  · exact asking_pure _
  · exact asking_pure _

theorem modest_interruption (i : Interrupt) :
    Asking Modest (i.interruption : side.Action (Option Error)) := by
  refine Asking.bind (asking_perform trivial) fun cancelled => ?_
  split
  · exact (modest_error i).bind fun e => asking_pure _
  · exact asking_pure none

theorem asks_unlessCancelled (t : Token) {halt p : side.Task α} (hhalt : Asks Modest halt)
    (hp : Asks Modest p) : Asks Modest (Activity.unlessCancelled t halt p) := by
  refine Asks.bind (asks_perform trivial) fun cancelled => ?_
  split
  · exact hhalt
  · exact hp.guard hhalt t

theorem modest_guard (i : Interrupt) {a : side.Action α} (ha : Asking Modest a) :
    Asking Modest (i.guard a) :=
  asks_unlessCancelled i.token ((modest_error i).bind fun e => asking_throw e) ha

theorem modest_pause (i : Interrupt) : Asking Modest (i.pause : side.Action Unit) :=
  modest_guard i (modest_sleep retryDelay)

theorem modest_remaining (i : Interrupt) : Asking Modest (i.remaining : side.Action Nat) := by
  unfold Interrupt.remaining
  split
  · exact asking_pure 0
  · exact Asking.bind modest_clock fun _ => asking_pure _

theorem modest_child (i : Interrupt) : Asking Modest (i.child : side.Action Interrupt) :=
  Asking.bind (asking_perform trivial) fun _ => asking_pure _

theorem modest_callHandle (script : String) : Asking Modest (callHandle script) :=
  asking_asked (P := Modest) (q := .callHandle script) rfl id

theorem modest_isOver (deadline : Option Nat) : Asking Modest (isOver deadline) :=
  Asking.bind modest_clock fun _ => asking_pure _

theorem modest_deadlineOf (timeout : Nat) : Asking Modest (deadlineOf timeout) := by
  unfold deadlineOf
  split
  · exact asking_pure none
  · exact Asking.bind modest_clock fun _ => asking_pure _

theorem modest_never : Asking Modest (.ofActivity Activity.never : side.Action α) :=
  Activity.asks_never trivial

theorem modest_lookUntil (selector : String) (wait : SelectorWait) (deadline : Option Nat)
    (fuel : Nat) : Asking Modest (lookUntil selector wait deadline fuel) := by
  induction fuel with
  | zero => exact modest_never
  | succ fuel ih =>
    refine Asking.bind (asking_ask rfl) fun look => ?_
    cases look with
    | found h => exact asking_pure _
    | absent => exact asking_pure _
    | pending =>
      refine (modest_isOver deadline).bind fun late => ?_
      cases late with
      | true => exact asking_throw _
      | false => exact Asking.bind (modest_sleep _) fun _ => ih

theorem modest_waitForSelector (selector : String) (wait : SelectorWait) :
    Asking Modest ((pages patience).waitForSelector () selector wait) := by
  refine Asking.bind (asking_ask rfl) fun delay => ?_
  have hlook : Asking Modest (deadlineOf wait.timeout >>= fun deadline =>
      lookUntil selector wait deadline (turns patience wait.timeout lookInterval)) :=
    (modest_deadlineOf _).bind fun deadline => modest_lookUntil selector wait deadline _
  cases delay with
  | none => exact hlook
  | some ms => exact (modest_sleep ms).bind fun _ => hlook

theorem modest_holdsUntil (place : Nat) (id : ElementId) (timeout : Nat)
    (deadline : Option Nat) (fuel : Nat) :
    Asking Modest (holdsUntil place id timeout deadline fuel) := by
  induction fuel with
  | zero => exact modest_never
  | succ fuel ih =>
    refine Asking.bind (asking_ask rfl) fun held => ?_
    cases held with
    | true => exact (asking_ask rfl : Asking Modest (ask (.newHandle (.json (.bool true)))))
    | false =>
      refine (modest_isOver deadline).bind fun late => ?_
      cases late with
      | true => exact asking_throw _
      | false => exact Asking.bind (modest_sleep _) fun _ => ih

theorem modest_waitFor (script : String) (wait : FunctionWait) (args : List (Argument Handle)) :
    Asking Modest (waitFor patience script wait args) := by
  refine Asking.bind (asking_ask rfl) fun subject => ?_
  cases subject with
  | none => exact modest_callHandle script
  | some found => exact (modest_deadlineOf _).bind fun deadline => modest_holdsUntil found.1 found.2 _ deadline _

theorem modest_evaluateHandle (h : Handle) (script : String) :
    Asking Modest ((realm patience).evaluateHandle h script []) :=
  asking_asked (P := Modest) (q := .mapHandle h script) rfl id

variable (patience) in
theorem asks_release (h : Handle) : Asks Modest ((realm patience).release h) := by
  have hrelease : Asking Modest ((realm patience).dispose h) := asking_ask rfl
  exact Asks.bind hrelease fun _ => trivial

theorem modest_releaseIn (h : Handle) : Asking Modest ((realm patience).releaseIn h) :=
  asking_lift (asks_release patience h)

/-! ### Ranks -/

mutual

/-- How deep a locator is composed. -/
def depth : Locator Unit → Nat
  | .node .. | .function .. => 1
  | .filtered _ inner _ | .mapped _ inner _ => depth inner + 1
  | .race _ branches => depthAll branches + 1

/-- How deep the deepest of several locators is composed. -/
def depthAll : List (Locator Unit) → Nat
  | [] => 0
  | l :: rest => max (depth l) (depthAll rest)

end

theorem depth_le_of_mem {l : Locator Unit} {branches : List (Locator Unit)} (h : l ∈ branches) :
    depth l ≤ depthAll branches := by
  induction h with
  | head rest => exact Nat.le_max_left _ _
  | tail other _ ih => exact Nat.le_trans ih (Nat.le_max_right _ _)

/-- The rank of a job: branches of races stand above all others, each as high as its locator is
deep. -/
def Job.rank : Job Handle Unit Timed → Nat
  | .branch l _ _ => depth l
  | _ => 0

/-- The job makes a change from outside happen. -/
def Job.isChore : Job Handle Unit Timed → Bool
  | .chore _ => true
  | _ => false

theorem chore_or_not (job : Job Handle Unit Timed) : (∃ timed, job = .chore timed) ∨ Job.isChore job = false := by
  cases job with
  | chore timed => exact .inl ⟨timed, rfl⟩
  | _ => exact .inr rfl

/-- The request only looks, and forks no job but of a lower rank and none that changes the page. -/
def Below (rank : Nat) : Request side.signature → Prop
  | .query q => Query.looks q = true
  | .fork job => Job.rank job < rank ∧ Job.isChore job = false
  | .close _ => 0 < rank
  | _ => True

theorem Modest.below {r : Request side.signature} (h : Modest r) (rank : Nat) : Below rank r := by
  cases r with
  | query q => exact h
  | clock | sleepUntil | forever | newToken | isCancelled => trivial
  | _ => exact absurd h id

theorem Asking.below {a : side.Action α} (ha : Asking Modest a) (rank : Nat) : Asking (Below rank) a :=
  ha.mono fun _ h => h.below rank

section Ranked

variable {rank : Nat}

theorem below_firstHandle (inbox : Inbox) (count : Nat) (last : Option Error) :
    Asking (Below rank) (Race.firstHandle (B := side) inbox count last) := by
  induction count generalizing last with
  | zero => exact asking_pure _
  | succ count ih =>
    refine Asking.bind (asking_perform trivial) fun (m : Except Error Handle) => ?_
    cases m with
    | ok handle => exact asking_pure _
    | error e => exact ih (some e)

theorem below_forkBranches (race : Interrupt) (inbox : Inbox) {branches : List (Locator Unit)}
    (h : ∀ l ∈ branches, depth l < rank) :
    Asking (Below rank) (Race.forkBranches (B := side) race inbox branches) := by
  induction branches with
  | nil => exact asking_pure ()
  | cons l rest ih =>
    refine ((modest_child race).below rank).bind fun branch => ?_
    have hfork : Below rank (.fork (.branch l branch inbox)) := ⟨h l List.mem_cons_self, rfl⟩
    exact Asking.bind (asking_perform hfork) fun _ => ih fun l' hl' => h l' (List.mem_cons_of_mem l hl')

theorem below_race {branches : List (Locator Unit)} (i : Interrupt) (hrank : 0 < rank)
    (h : ∀ l ∈ branches, depth l < rank) : Asking (Below rank) (Race.run (B := side) branches i) := by
  unfold Race.run
  split
  · exact asking_throw _
  · refine Asking.bind ((modest_child i).below rank) fun race =>
      Asking.bind (asking_perform trivial) fun inbox => ?_
    refine Asking.bind (below_forkBranches race inbox h) fun _ => ?_
    refine Asking.bind ((below_firstHandle inbox _ _).protect ?_) fun winner => ?_
    · simpa [Duty.request, Below] using hrank
    refine Asking.bind (asking_perform trivial) fun _ => ?_
    cases winner with
    | ok found =>
      have hdrain : Below rank (.fork (.drain inbox found.2)) := ⟨hrank, rfl⟩
      exact Asking.bind (asking_perform hdrain) fun _ => asking_pure _
    | error last => exact asking_throw _

/-- To release a handle on the way is nothing that a higher rank does not allow. -/
theorem below_releaseDuty (hrank : 0 < rank) (h : Handle) :
    ∀ d ∈ [releaseDuty (B := side) h], Below rank d.request := by
  intro d hd
  rw [List.mem_singleton.mp hd]
  exact ⟨hrank, rfl⟩

/-- To find a handle takes only jobs below the rank of the locator's own branch. -/
theorem below_resolve (i : Interrupt) :
    ∀ l : Locator side.Page, depth l ≤ rank → Asking (Below rank) (l.resolve (browser patience) i)
  | .node o _ selector, _ => by
    unfold Locator.resolve
    refine ((modest_remaining i).below rank).bind fun ms => ?_
    refine ((modest_guard i (modest_waitForSelector selector _)).below rank).bind fun found => ?_
    cases found with
    | some handle => exact asking_pure handle
    | none => exact asking_throw _
  | .function _ _ script, _ => by
    unfold Locator.resolve
    exact Asking.below ((modest_remaining i).bind fun ms => modest_guard i (modest_callHandle script)) rank
  | .filtered o inner predicate, h => by
    have hinner : depth inner < rank := h
    have hpos : 0 < rank := Nat.zero_lt_of_lt hinner
    unfold Locator.resolve
    refine (below_resolve i inner hinner.le).bind fun handle => ?_
    refine ((((modest_guard i (modest_waitFor predicate _ _)).below rank).protect
      (below_releaseDuty hpos handle)).attempt).bind fun held => ?_
    cases held with
    | ok result =>
      exact (((modest_releaseIn result).below rank).protect (below_releaseDuty hpos handle)).bind
        fun _ => asking_pure handle
    | error e =>
      exact (((modest_releaseIn handle).below rank).protect (below_releaseDuty hpos handle)).bind
        fun _ => asking_throw e
  | .mapped _ inner mapper, h => by
    have hinner : depth inner < rank := h
    have hpos : 0 < rank := Nat.zero_lt_of_lt hinner
    unfold Locator.resolve
    refine (below_resolve i inner hinner.le).bind fun handle => ?_
    refine ((((modest_guard i (modest_evaluateHandle handle mapper)).below rank).protect
      (below_releaseDuty hpos handle)).attempt).bind fun made => ?_
    exact (((modest_releaseIn handle).below rank).protect (below_releaseDuty hpos handle)).bind
      fun _ => asking_ofExcept made
  | .race _ branches, h => by
    unfold Locator.resolve
    have hbranches : depthAll branches < rank := h
    exact below_race i (Nat.zero_lt_of_lt hbranches) fun l hl =>
      Nat.lt_of_le_of_lt (depth_le_of_mem hl) hbranches

end Ranked

/-! ### Background work -/

theorem below_drain (rank : Nat) (inbox : Inbox) (count : Nat) :
    Asks (Below rank) (Race.drain (realm patience) inbox count) := by
  induction count with
  | zero => trivial
  | succ count ih =>
    refine Asks.bind (asks_perform trivial) fun (m : Except Error Handle) => ?_
    cases m with
    | ok handle => exact ((asks_release patience handle).mono fun _ h => h.below rank).bind fun _ => ih
    | error e => exact ih

/-- To wait for a deadline is modest. -/
theorem asks_awaitDeadline (i : Interrupt) (ended : Token) (deadline : Nat) :
    Asks Modest (Activity.unlessCancelled ended (.done false) (Activity.unlessCancelled i.token
      (.done false) (Activity.bind (Activity.perform (.sleepUntil deadline)) fun () => .done true)) :
        side.Task Bool) :=
  asks_unlessCancelled ended trivial (asks_unlessCancelled i.token trivial
    (Asks.bind (asks_perform trivial) fun _ => trivial))

theorem below_expire (rank : Nat) (i : Interrupt) (ended : Token) :
    Asks (Below rank) (i.expire ended : side.Task Unit) := by
  unfold Interrupt.expire
  split
  · trivial
  · rename_i deadline hdeadline
    refine ((asks_awaitDeadline i ended deadline).mono fun _ h => h.below rank).bind fun reached => ?_
    cases reached with
    | true => exact Asks.bind (asks_perform trivial) fun _ => asks_perform trivial
    | false => trivial

theorem below_branch (l : Locator Unit) (i : Interrupt) (inbox : Inbox) :
    Asks (Below (depth l)) (l.runBranch (browser patience) i inbox) := by
  have hend : Asks (Below (depth l)) (Activity.perform (.discard i.token) : side.Task Unit) :=
    asks_perform trivial
  refine Asks.bind (below_resolve i l Nat.le.refl) fun found => ?_
  refine Asks.bind (asks_perform trivial) fun (accepted : Bool) => ?_
  cases found with
  | ok handle =>
    cases accepted with
    | true => exact hend
    | false =>
      exact ((asks_release patience handle).mono fun _ h => h.below _).bind fun _ => hend
  | error e => exact hend

/-- A job only looks, and forks only jobs of a lower rank, unless it makes a change from outside happen. -/
theorem asks_start {job : Job Handle Unit Timed} (hjob : Job.isChore job = false) :
    Asks (Below (Job.rank job)) ((backend patience).start job) := by
  cases job with
  | release handle => exact (asks_release patience handle).mono fun _ h => h.below _
  | expire i ended => exact below_expire _ i ended
  | branch l i inbox => exact below_branch l i inbox
  | drain inbox count => exact below_drain _ inbox count
  | cancelAt time t => exact Asks.bind (asks_perform trivial) fun _ => asks_perform trivial
  | chore timed => exact absurd hjob nofun

/-- A change from outside waits for its time and happens. -/
theorem asks_chore {P : Request side.signature → Prop} {timed : Timed} (hsleep : P (.sleepUntil timed.time))
    (hchange : P (.query (.change timed.change))) : Asks P ((backend patience).start (.chore timed)) :=
  Asks.bind (asks_perform hsleep) fun _ => asks_perform hchange

/-- What goes on at one instant on a page comes to rest. -/
theorem issues_page : WellFounded (Issues (backend patience)) := by
  refine Activity.issues_wellFounded Job.rank fun job => ?_
  rcases chore_or_not job with ⟨timed, rfl⟩ | hjob
  · exact asks_chore (fun _ _ hj => absurd hj List.not_mem_nil) fun _ _ hj => absurd hj List.not_mem_nil
  · refine (asks_start hjob).mono fun r hr tl j hj => ?_
    cases r with
    | fork job' =>
      rw [List.mem_singleton.mp hj]
      exact hr.1
    | close inbox =>
      obtain ⟨m, -, hm⟩ := List.mem_flatMap.mp hj
      cases m with
      | ok handle =>
        rw [List.mem_singleton.mp hm]
        exact hr
      | error e => exact absurd hm List.not_mem_nil
    | _ => exact absurd hj List.not_mem_nil

/-! ### Gentleness -/

/-- The action does nothing to any element, wherever it goes. -/
def Gentle (a : side.Action α) : Prop := Innocent (S := side.signature) Query.Gentle a.outcome

theorem aside_of_below {rank : Nat} {p : side.Task α} (h : Asks (Below rank) p) :
    Innocent (S := side.signature) Query.Aside p :=
  Asks.mono h fun _ hr q hq => by
    rw [hq] at hr
    exact q.aside_of_looks hr

theorem innocent_of_below {rank : Nat} {p : side.Task α} (h : Asks (Below rank) p) :
    Innocent (S := side.signature) Query.Gentle p :=
  Asks.mono (aside_of_below h) fun _ hr q hq => (hr q hq).gentle

theorem Asking.gentle {a : side.Action α} (ha : Asking Modest a) : Gentle a :=
  innocent_of_below (ha.below 0)

/-- To find a handle does nothing to any element. -/
theorem gentle_resolve (i : Interrupt) (l : Locator side.Page) :
    Gentle (l.resolve (browser patience) i) :=
  innocent_of_below (below_resolve i l Nat.le.refl)

/-- Background work reaches no element through a handle. -/
theorem aside_start (job : Job Handle Unit Timed) :
    Innocent (S := side.signature) Query.Aside ((backend patience).start job) := by
  rcases chore_or_not job with ⟨timed, rfl⟩ | hjob
  · exact asks_chore nofun fun _ hq => Request.query.inj hq ▸ rfl
  · exact aside_of_below (asks_start hjob)

/-- No background work does anything to an element that counts as a deed. -/
theorem innocent_start (job : Job Handle Unit Timed) :
    Innocent (S := side.signature) Query.Gentle ((backend patience).start job) :=
  Asks.mono (aside_start job) fun _ hr q hq => (hr q hq).gentle

end Wayfind.Simulation
