/-
Operations on a simulated page give way when they are cancelled.

However a call was made on a page and whatever else happens there: as soon as its token is cancelled, by
the caller's signal or by the deadline, neither the call nor a branch of any of its races asks the page for
anything but to let go of handles; and all of them end at the same instant, without waiting for any time
(`stops_of_cancelled`).
-/
import Wayfind.Proofs.Page.Stopping
import Wayfind.Proofs.Simulation.Asking
import Wayfind.Proofs.Simulation.Scene

namespace Wayfind.Simulation

open Activity (Token Timeline Crowd Dealing Annals Kept)
open Activity.Timeline (watched)
open Keeping (Keeps keeping)
open PageSide (Action)

variable {patience : Nat} {α β : Type}

/-! ### What locators do with a page only looks -/

/-- The action only looks. -/
def Glances (a : side.Action α) : Prop := Looks (B := side) a.outcome

namespace Glances

theorem pure (v : α) : Glances (Pure.pure v) := trivial

theorem throw (e : Error) : Glances (MonadExcept.throw e : side.Action α) := trivial

theorem ofExcept (r : Except Error α) : Glances (Action.ofExcept r) := by
  unfold Glances
  rw [outcome_ofExcept]
  trivial

theorem bind {a : side.Action α} {f : α → side.Action β} (ha : Glances a) (hf : ∀ v, Glances (f v)) :
    Glances (a >>= f) := by
  unfold Glances
  rw [outcome_bind]
  refine Looks.bind ha fun r => ?_
  cases r with
  | ok v => exact hf v
  | error e => exact trivial

theorem ask (q : Query) : Glances (Simulation.ask q) := ⟨rfl, rfl, fun _ => trivial⟩

theorem clock : Glances (Action.clock : side.Action Nat) := ⟨rfl, rfl, fun _ => trivial⟩

theorem sleep (ms : Nat) : Glances (Action.sleep ms : side.Action Unit) :=
  ⟨rfl, rfl, fun _ => ⟨rfl, rfl, fun _ => trivial⟩⟩

theorem never : Glances (.ofActivity Activity.never : side.Action α) := ⟨rfl, rfl, fun a => Empty.elim a⟩

theorem callHandle (script : String) : Glances (Simulation.callHandle script) :=
  (ask _).bind fun r => ofExcept r

theorem isOver (deadline : Option Nat) : Glances (Simulation.isOver deadline) := clock.bind fun _ => pure _

theorem deadlineOf (timeout : Nat) : Glances (Simulation.deadlineOf timeout) := by
  unfold Simulation.deadlineOf
  split
  · exact pure none
  · exact clock.bind fun _ => pure _

theorem lookUntil (selector : String) (wait : SelectorWait) (deadline : Option Nat) (fuel : Nat) :
    Glances (Simulation.lookUntil selector wait deadline fuel) := by
  induction fuel with
  | zero => exact never
  | succ fuel ih =>
    refine (ask _).bind fun look => ?_
    cases look with
    | found h => exact pure _
    | absent => exact pure _
    | pending =>
      refine (isOver deadline).bind fun late => ?_
      cases late with
      | true => exact throw _
      | false => exact (sleep _).bind fun _ => ih

theorem holdsUntil (place : Nat) (id : ElementId) (timeout : Nat) (deadline : Option Nat) (fuel : Nat) :
    Glances (Simulation.holdsUntil place id timeout deadline fuel) := by
  induction fuel with
  | zero => exact never
  | succ fuel ih =>
    refine (ask _).bind fun held => ?_
    cases held with
    | true => exact (ask (.newHandle (.json (.bool true)))).bind fun _ => pure _
    | false =>
      refine (isOver deadline).bind fun late => ?_
      cases late with
      | true => exact throw _
      | false => exact (sleep _).bind fun _ => ih

theorem waitFor (script : String) (wait : FunctionWait) (args : List (Argument Handle)) :
    Glances (Simulation.waitFor patience script wait args) := by
  refine (ask _).bind fun subject => ?_
  cases subject with
  | none => exact callHandle script
  | some found => exact (deadlineOf _).bind fun deadline => holdsUntil found.1 found.2 _ deadline _

theorem waitForSelector (selector : String) (wait : SelectorWait) :
    Glances ((pages patience).waitForSelector () selector wait) := by
  refine (ask _).bind fun delay => ?_
  have hlook : Glances (Simulation.deadlineOf wait.timeout >>= fun deadline =>
      Simulation.lookUntil selector wait deadline (turns patience wait.timeout lookInterval)) :=
    (deadlineOf _).bind fun deadline => lookUntil selector wait deadline _
  cases delay with
  | none => exact hlook
  | some ms => exact (sleep ms).bind fun _ => hlook

theorem deeds (patience : Nat) : Deeds (realm patience) fun _ a => Glances a where
  pure := pure
  throw := throw
  bind := bind
  announce := ⟨rfl, rfl, fun _ => trivial⟩
  evaluate _ _ _ := (ask _).bind fun r => ofExcept r
  click _ _ := (ask _).bind fun r => ofExcept r
  hover _ := (ask _).bind fun r => ofExcept r
  focus _ := (ask _).bind fun r => ofExcept r
  typeText _ _ := (ask _).bind fun r => ofExcept r
  select _ _ := (ask _).bind fun r => ofExcept r
  scrollIntoView _ := (ask _).bind fun r => ofExcept r
  isIntersecting _ _ := (ask _).bind fun r => ofExcept r

end Glances

/-! ### What else happens -/

/-- Something happens to the page. -/
def Query.Happens (q : Query) : Prop := ∃ change, q = .change change

theorem stranger_event (event : Event) : Stranger Query.Happens ((backend patience).start event.job) := by
  cases event with
  | change timed => exact ⟨rfl, fun _ => ⟨⟨timed.change, rfl⟩, rfl, fun _ => trivial⟩⟩
  | cancel time => exact ⟨rfl, fun _ => ⟨rfl, fun _ => trivial⟩⟩

/-- Before a call is started there is only what will happen on its own. -/
theorem bag_timeline (patience : Nat) (s : Scene) :
    ∃ strangers, (∀ p ∈ strangers, Stranger Query.Happens p) ∧
      (s.timeline patience).bag ≤ strangers := by
  refine ⟨(s.timeline patience).bag, fun p hp => ?_, le_rfl⟩
  have hactivities : (s.timeline patience).tasks.map (·.activity) = _ :=
    Timeline.forkAll_activities (B := backend patience) (s.events.map Event.job) s.stage
  rw [Timeline.bag, hactivities] at hp
  obtain ⟨job, hjob, rfl⟩ := List.mem_map.mp (Multiset.mem_coe.mp hp)
  obtain ⟨event, -, rfl⟩ := List.mem_map.mp hjob
  exact stranger_event event

/-! ### Calls -/

namespace Call

/-- What a call may still ask of the page when it is cancelled: to let go of a handle, and, if it reads a
value at its end, for the value behind the handle it has found, which it does outside of the action. -/
def Mild (call : Call) (q : Query) : Prop :=
  (∃ h, q = .release h) ∨ call.terminal.reads = true ∧ ∃ h, q = .jsonValue h

/-- To ask what may be asked in any case complies. -/
theorem complies_ask {T : Terms side} {st : Stand} {q : Query} (hq : T.mild q) (hthere : st.sight ≠ .gone) :
    Complies T st (ask q) := by
  refine ⟨hthere, fun _ => hq, ?_, fun _ ht => absurd ht List.not_mem_nil⟩
  rintro _ after rfl
  exact .refl hthere

theorem employs (call : Call) (patience : Nat) : Employs (backend patience) (browser patience) call.Mild where
  release _ := rfl
  branch _ _ _ := rfl
  drain _ _ := rfl
  expire _ _ := rfl
  answers _ _ := rfl
  calm _ := rfl
  looks :=
    { dispose := fun h _ _ hmild hthere => complies_ask (hmild ▸ Or.inl ⟨h, rfl⟩) hthere
      deeds := Glances.deeds patience
      evaluateHandle := fun _ _ => (Glances.ask _).bind fun r => Glances.ofExcept r
      waitFor := fun script wait args => Glances.waitFor script wait args
      waitForSelector := fun _ selector wait => Glances.waitForSelector selector wait
      waitForFunction := fun _ script _ => Glances.callHandle script }

/-- A call without a time limit makes as many attempts as its patience allows, 100 ms from one to the next,
and does nothing any more from then on; the more patience, the later. -/
def GivesUp (call : Call) (patience : Nat) (s : Scene) (time : Nat) : Prop :=
  call.timeout = 0 ∧ s.clock + retryDelay * patience ≤ time

/-- A call that was made in such a scene stops when its token is cancelled, after whatever has been done
so far. -/
structure Stops (call : Call) (patience : Nat) (s : Scene)
    (c : Crowd (backend patience) Unit (Except Error (Option Handle))) (log : List (Dealing side.signature))
    (root : Token) : Prop where
  /-- Before anything else the call makes its token, under the signal if it has one. -/
  made : log.head?.map Dealing.exchange = some ⟨.newToken call.signal, root⟩
  /-- When the signal is cancelled, before the start or later, then so is the token. -/
  heir : ∀ t ∈ call.signal, c.timeline.isCancelled t = true → c.timeline.isCancelled root = true
  /-- Whoever makes a request while the token is cancelled asks nothing but mild questions and announces
  nothing; the page itself may change. -/
  hushed : ∀ x ∈ log, x.tokens.isCancelled root = true →
    Hushed (B := side) (fun q => call.Mild q ∨ Query.Happens q) x.exchange.request
  /-- When the token is cancelled and nobody can go on, so that time could pass, the call has ended and so
  has everybody whom it has set to work. -/
  atRest : c.timeline.isCancelled root = true → ¬ call.GivesUp patience s c.timeline.clock → c.Resting →
    Over Query.Happens c
  /-- And this comes about at the same instant. -/
  atOnce : c.timeline.isCancelled root = true → ¬ call.GivesUp patience s c.timeline.clock →
    ∃ c' more, Over Query.Happens c' ∧
      Annals.Ensues (backend patience) (call.activity (browser patience)) (s.timeline patience) c log c' more

variable {call : Call} {s : Scene} {c : Crowd (backend patience) Unit (Except Error (Option Handle))}
  {log : List (Dealing side.signature)}

/-- The first turn of a call makes its token, and begins. -/
theorem exists_opens (call : Call) (patience : Nat) (s : Scene) :
    ∃ said, said.head? = some ⟨.newToken call.signal, (s.timeline patience).tokens.count⟩ ∧
      Opens (backend patience) (call.activity (browser patience)) (s.timeline patience) call.signal
        (s.timeline patience).tokens.count call.Mild Query.Happens (call.GivesUp patience s) said := by
  have hK := call.employs patience
  obtain ⟨-, hclock, htokens, -⟩ :=
    Timeline.forkAll_keeps (B := backend patience) (s.events.map Event.job) s.stage
  have hforest : (s.timeline patience).tokens.Forest := by
    rw [Scene.timeline, htokens]
    exact Keeping.forest_opening (K := backend patience) s.page s.clock s.cancelled
  have hsignal : ∀ t ∈ call.signal, t < (s.timeline patience).tokens.count := by
    rw [Scene.timeline, htokens]
    exact call.signal_lt
  obtain ⟨strangers, hstrangers, hbag⟩ := bag_timeline patience s
  have hreads (hreads : call.terminal.reads = true) (h : Handle) {T : Terms side} {st : Stand}
      (hmild : T.mild = call.Mild) (hthere : st.sight ≠ .gone) :
      Complies T st ((realm patience).jsonValue h) := by
    have hasked : T.mild (.jsonValue h) := hmild ▸ Or.inr ⟨hreads, h, rfl⟩
    exact (complies_ask hasked hthere).bind fun r after honward => .ofExcept honward.there
  obtain ⟨op, hcontinues⟩ : ∃ op,
      Continues (.leading (s.timeline patience).tokens.count call.Mild (call.GivesUp patience s))
        (call.locator.run (browser patience) op call.signal)
        (call.terminal.action (browser patience) call.locator call.signal) :=
    continues_terminal call.terminal hK.looks hreads call.locator call.signal
  refine Wayfind.exists_opens hK hcontinues hforest hsignal hstrangers hbag fun hzero time htime =>
    ⟨hzero, ?_⟩
  rw [Scene.timeline, hclock] at htime
  exact htime

theorem kept_of_annals
    (h : Annals (backend patience) (call.activity (browser patience)) (s.timeline patience) c log) :
    Kept (keeping (books_backend patience).custody 1 s.page.liveIds)
      (Keeps (books_backend patience).custody.chargeIn)
      (fun _ => Keeping.Ended call.terminal call.timeout call.signal) c :=
  kept_of_turns s (fun _ => call) h.tale.turns

/-- However everybody takes turns, the call is under way, what is done is subdued, and its token obeys the
signal. -/
theorem underWay_of_annals
    (h : Annals (backend patience) (call.activity (browser patience)) (s.timeline patience) c log) :
    UnderWay (s.timeline patience).tokens.count call.Mild Query.Happens (call.GivesUp patience s) c ∧
      Subdued (B := side) (s.timeline patience).tokens.count (fun q => call.Mild q ∨ Query.Happens q) log ∧
      Signalled call.signal (s.timeline patience).tokens.count c.timeline.tokens := by
  obtain ⟨said, -, hopens⟩ := call.exists_opens patience s
  refine UnderWay.of_annals (call.employs patience) hopens (fun c log hc => ?_) h
  obtain ⟨_, _, _, -, -, -, hbalanced, -⟩ := (kept_of_annals hc).shares
  exact Keeping.Balanced.forest hbalanced

/-- Where nobody can go on, a call whose token is cancelled is over. -/
theorem over_of_resting
    (h : Annals (backend patience) (call.activity (browser patience)) (s.timeline patience) c log)
    (hcancelled : c.timeline.isCancelled (s.timeline patience).tokens.count = true)
    (hpatient : ¬ call.GivesUp patience s c.timeline.clock) (hrest : c.Resting) : Over Query.Happens c :=
  (underWay_of_annals h).1.over_of_resting (kept_of_annals h) hrest hcancelled fun _ htime hnot =>
    hpatient ⟨hnot.1, hnot.2.trans htime⟩

end Call

/-- When its token is cancelled a call stops, whatever its locator is and what it does, and however
everybody takes turns. -/
theorem stops_of_cancelled (s : Scene) (call : Call)
    {c : Crowd (backend patience) Unit (Except Error (Option Handle))} {log : List (Dealing side.signature)}
    (h : Annals (backend patience) (call.activity (browser patience)) (s.timeline patience) c log) :
    ∃ root, call.Stops patience s c log root := by
  obtain ⟨said, hsaid, hopens⟩ := call.exists_opens patience s
  obtain ⟨-, hsubdued, hsignalled⟩ := Call.underWay_of_annals h
  refine ⟨(s.timeline patience).tokens.count, hopens.head hsaid h,
    fun t ht => (hsignalled t ht).2.isCancelled, hsubdued, Call.over_of_resting h,
    fun hcancelled hpatient => ?_⟩
  obtain ⟨c', more, hensues, hrest⟩ := h.exists_rest issues_page
  refine ⟨c', more, Call.over_of_resting hensues.told (hensues.cancelled _ hcancelled) ?_ hrest, hensues⟩
  rw [hensues.clock]
  exact hpatient

/-- To click whichever of two appears first, for 50 ms. -/
def vainRace : Call where
  locator := .race { Locator.Options.default with timeout := 50 }
    [.node .default () "input", .node .default () "button"]
  terminal := .click .default
  signalled := true

/-- A page with nothing on it, whose signal has been cancelled before anything is started. -/
def cancelledScene : Scene := ⟨Page.ofElements #[], 7, true, []⟩

/-- The race after its first turn. -/
def vainStart : Crowd (backend 0) Unit (Except Error (Option Handle)) :=
  (Crowd.init (cancelledScene.timeline 0)).place () 7
    (Timeline.advance (backend 0) (vainRace.activity (browser 0)) (cancelledScene.timeline 0))

/-- Then its two branches are at work, and who waits for the deadline, but all is over at the same instant. -/
theorem stops_of_vainRace :
    vainStart.running.length = 1 ∧ vainStart.timeline.tasks.length = 3 ∧
      ∃ log root, vainRace.Stops 0 cancelledScene vainStart log root ∧
        vainStart.timeline.isCancelled root = true ∧
        ∃ c more, Over Query.Happens c ∧
          Annals.Ensues (backend 0) (vainRace.activity (browser 0)) (cancelledScene.timeline 0) vainStart log c
            more := by
  have hbegun : Annals (backend 0) (vainRace.activity (browser 0)) (cancelledScene.timeline 0) vainStart _ :=
    .enters
  obtain ⟨root, hstops⟩ := stops_of_cancelled cancelledScene vainRace hbegun
  have hcancelled : vainStart.timeline.isCancelled root = true := hstops.heir Keeping.signal rfl (by cbv)
  have hlimited : ¬ vainRace.GivesUp 0 cancelledScene vainStart.timeline.clock :=
    fun hgives => absurd hgives.1 (by decide)
  exact ⟨by cbv, by cbv, _, root, hstops, hcancelled, hstops.atOnce hcancelled hlimited⟩

end Wayfind.Simulation
