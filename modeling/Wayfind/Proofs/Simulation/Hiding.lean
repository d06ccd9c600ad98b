/-
Waiting for an element to be hidden.

A node polls the page for its selector: at once, and again after every 10 ms; after an attempt that has
failed it starts again.  What it waits for is an element.  At the first poll that finds one which is visible,
or hidden, as is asked for, the wait ends with success, at that instant; and with nothing else
(`succeeds_of_poll`).

For a hidden element there would be another way to be right: that there is none.  The page says so, as an
answer of its own, but to the attempt this is a failure like any other.  So where no element ever is, the
wait goes on to its deadline (`times_out_of_absence`).
-/
import Mathlib
import Wayfind.Proofs.Activity.Diary
import Wayfind.Proofs.Simulation.Admission
import Wayfind.Proofs.Simulation.Scene

namespace Wayfind.Simulation

open Activity (Diary Entry Pause Paces Run Timeline diaryOf paced_of_run paces_actionClock paces_actionSilent
  paces_andThen paces_ask paces_attempt paces_guard_actionClock paces_guard_actionSleep paces_guard_ask
  paces_guard_never paces_ofExcept paces_protect paces_silent)
open Keeping (Terminal)
open PageSide (Action)

variable {patience : Nat} {o : Locator.Options} {selector : String}

/-! ### Polls -/

/-- The question is a poll for the selector. -/
def Query.polls (selector : String) : Query → Bool
  | .look s _ => s == selector
  | _ => false

/-- The selector has an element, visible or hidden as is asked for. -/
def Page.Offers (p : Page) (o : Locator.Options) (selector : String) : Prop :=
  ∃ id, p.served.lookup selector = some id ∧ o.meets (p.element id).visible = true

/-- What a poll finds is an element as is asked for. -/
theorem Page.look_found (p : Page) (ms : Nat) :
    (∃ h, (p.look selector (o.wait ms)).1 = .found h) ↔ p.Offers o selector := by
  unfold Page.look Page.Offers
  cases p.served.lookup selector with
  | none =>
    refine ⟨fun ⟨h, hfound⟩ => ?_, fun ⟨id, hid, _⟩ => absurd hid nofun⟩
    dsimp only at hfound
    split at hfound <;> exact absurd hfound nofun
  | some id =>
    simp only [o.seen_wait, Option.some.injEq, exists_eq_left']
    split
    · rename_i hmeets
      exact iff_of_true ⟨_, rfl⟩ hmeets
    · rename_i hmeets
      exact iff_of_false (fun ⟨h, hfound⟩ => absurd hfound nofun) hmeets

/-- An entry of a diary that tells of a poll. -/
abbrev Poll (patience : Nat) := Entry (backend patience)

/-- The page that was polled. -/
def Poll.page (e : Poll patience) : Page := e.moment.world

/-- The polls for a selector in a diary, in order. -/
def pollsOf (selector : String) (diary : Diary (backend patience)) : List (Poll patience) :=
  diary.filter fun e => e.moment.query.polls selector

/-- All polls have been in vain. -/
def Vain (o : Locator.Options) (selector : String) (diary : Diary (backend patience)) : Prop :=
  ∀ e ∈ pollsOf selector diary, ¬ e.page.Offers o selector

/-- The last poll has found what is asked for, at this time, and no other one has. -/
def Found (o : Locator.Options) (selector : String) (diary : Diary (backend patience)) (now : Nat) : Prop :=
  ∃ vain e, pollsOf selector diary = vain ++ [e] ∧ (∀ e' ∈ vain, ¬ e'.page.Offers o selector) ∧
    e.page.Offers o selector ∧ e.time = now

/-- Who has looked ends with such a value when something was found, and else with an error. -/
def Looked {α : Type} (fits : α → Prop) (o : Locator.Options) (selector : String)
    (diary : Diary (backend patience)) (now : Nat) : Except Error α → Prop
  | .ok v => fits v ∧ Found o selector diary now
  | .error _ => Vain o selector diary

section Diaries

variable {diary : Diary (backend patience)} {now : Nat} {w : Page} {q : Query}

theorem pollsOf_concat (diary : Diary (backend patience)) (now : Nat) (w : Page) (q : Query) :
    pollsOf selector (diary ++ [⟨now, ⟨w, q⟩⟩]) =
      pollsOf selector diary ++ if q.polls selector then [⟨now, ⟨w, q⟩⟩] else [] := by
  rw [pollsOf, List.filter_append, List.filter_singleton, Bool.cond_eq_ite]
  rfl

theorem vain_nil : Vain o selector ([] : Diary (backend patience)) := nofun

theorem Vain.concat (h : Vain o selector diary) (hw : q.polls selector = true → ¬ w.Offers o selector) :
    Vain o selector (diary ++ [⟨now, ⟨w, q⟩⟩]) := by
  intro e he
  rw [pollsOf_concat] at he
  rcases List.mem_append.mp he with he | he
  · exact h e he
  · split at he
    · rename_i hpolls
      rw [List.mem_singleton.mp he]
      exact hw hpolls
    · exact absurd he List.not_mem_nil

theorem Vain.found (h : Vain o selector diary) (hpolls : q.polls selector = true) (hw : w.Offers o selector) :
    Found o selector (diary ++ [⟨now, ⟨w, q⟩⟩]) now :=
  ⟨pollsOf selector diary, ⟨now, ⟨w, q⟩⟩, by rw [pollsOf_concat, if_pos hpolls], h, hw, rfl⟩

theorem Found.concat (h : Found o selector diary now) (hpolls : q.polls selector = false) :
    Found o selector (diary ++ [⟨now, ⟨w, q⟩⟩]) now := by
  obtain ⟨vain, e, hdiary, hvain, hoffers, htime⟩ := h
  refine ⟨vain, e, ?_, hvain, hoffers, htime⟩
  rw [pollsOf_concat, hpolls, if_neg Bool.false_ne_true, List.append_nil, hdiary]

end Diaries

/-! ### The wait, request by request -/

/-- While the wait waits all polls have been in vain. -/
def StillVain (o : Locator.Options) (selector : String) (diary : Diary (backend patience)) (_ : Nat)
    (_ : Pause side.signature) : Prop := Vain o selector diary

/-- A look for the selector gives a handle when it has found something, and else nothing or an error. -/
def Given (o : Locator.Options) (selector : String) (diary : Diary (backend patience)) (now : Nat) :
    Except Error (Option Handle) → Prop
  | .ok (some _) => Found o selector diary now
  | _ => Vain o selector diary

section Paces

variable {diary : Diary (backend patience)} {now : Nat} {i : Interrupt}

/-- Who is interrupted ends with an error. -/
theorem paces_fail {α : Type} {W : Diary (backend patience) → Nat → Pause side.signature → Prop}
    {Q : Diary (backend patience) → Nat → Except Error α → Prop} (h : ∀ e, Q diary now (.error e)) :
    Paces W Q (i.fail : side.Action α).outcome diary now := by
  refine paces_andThen.mpr (paces_actionSilent (r := .isCancelled i.expired) rfl nofun fun expired : Bool => ?_)
  cases expired <;> exact h _

theorem paces_lookUntil {ms : Nat} (deadline : Option Nat) (fuel : Nat) (hvain : Vain o selector diary) :
    Paces (StillVain o selector) (Given o selector) (Activity.guard i.token (i.fail (B := side)).outcome
      (lookUntil selector (o.wait ms) deadline fuel).outcome) diary now := by
  induction fuel generalizing diary now with
  | zero => exact paces_guard_never (fun later => paces_fail fun e => hvain) hvain
  | succ fuel ih =>
    have hhalt (diary : Diary (backend patience)) (hvain : Vain o selector diary) (later : Nat) :
        Paces (StillVain o selector) (Given o selector) (i.fail (B := side)).outcome diary later :=
      paces_fail fun e => hvain
    refine paces_guard_ask (hhalt diary hvain) fun w : Page => ?_
    have hpolls : (Query.look selector (o.wait ms)).polls selector = true := beq_self_eq_true selector
    have hfound : (∃ h, (w.look selector (o.wait ms)).1 = .found h) ↔ w.Offers o selector := w.look_found ms
    have hanswer : ((backend patience).answer (.look selector (o.wait ms)) w).1 =
        (w.look selector (o.wait ms)).1 := rfl
    rw [hanswer]
    have hnothing (hnone : ∀ h, (w.look selector (o.wait ms)).1 ≠ .found h) :
        Vain o selector (diary ++ [⟨now, ⟨w, .look selector (o.wait ms)⟩⟩]) := by
      refine hvain.concat fun _ hoffers => ?_
      obtain ⟨h, hh⟩ := hfound.mpr hoffers
      exact hnone h hh
    cases hlook : (w.look selector (o.wait ms)).1 with
    | found h => exact hvain.found hpolls (hfound.mp ⟨h, hlook⟩)
    | absent => exact hnothing fun h => by rw [hlook]; exact nofun
    | pending =>
      have hvain' := hnothing fun h => by rw [hlook]; exact nofun
      have hrest : Paces (StillVain o selector) (Given o selector)
          (Activity.guard i.token (i.fail (B := side)).outcome
            (Action.sleep (B := side) lookInterval >>= fun _ =>
              lookUntil selector (o.wait ms) deadline fuel).outcome)
          (diary ++ [⟨now, ⟨w, .look selector (o.wait ms)⟩⟩]) now :=
        paces_guard_actionSleep (hhalt _ hvain') hvain' (ih hvain')
      simp only [isOver, bind_assoc, pure_bind]
      refine paces_guard_actionClock (hhalt _ hvain') ?_
      split
      · exact hvain'
      · exact hrest

theorem paces_waitForSelector {ms : Nat} (hvain : Vain o selector diary) :
    Paces (StillVain o selector) (Given o selector) (Activity.guard i.token (i.fail (B := side)).outcome
      ((pages patience).waitForSelector () selector (o.wait ms)).outcome) diary now := by
  have hhalt (diary : Diary (backend patience)) (hvain : Vain o selector diary) (later : Nat) :
      Paces (StillVain o selector) (Given o selector) (i.fail (B := side)).outcome diary later :=
    paces_fail fun e => hvain
  refine paces_guard_ask (hhalt diary hvain) fun w : Page => ?_
  have hvain' : Vain o selector (diary ++ [⟨now, ⟨w, .delayOf selector⟩⟩]) :=
    hvain.concat fun hpolls => absurd hpolls Bool.false_ne_true
  have hlook (time : Nat) : Paces (StillVain o selector) (Given o selector)
      (Activity.guard i.token (i.fail (B := side)).outcome (deadlineOf ms >>= fun deadline =>
        lookUntil selector (o.wait ms) deadline (turns patience ms lookInterval)).outcome)
      (diary ++ [⟨now, ⟨w, .delayOf selector⟩⟩]) time := by
    unfold deadlineOf
    split
    · exact paces_lookUntil _ _ hvain'
    · simp only [bind_assoc, pure_bind]
      exact paces_guard_actionClock (hhalt _ hvain') (paces_lookUntil _ _ hvain')
  generalize ((backend patience).answer (.delayOf selector) w).1 = delay
  rcases (delay : Option Nat) with _ | ms
  · exact hlook now
  · exact paces_guard_actionSleep (hhalt _ hvain') hvain' (hlook _)

/-- Unless it is cancelled already, the action goes on under its token. -/
theorem paces_interrupt {α : Type} {Q : Diary (backend patience) → Nat → Except Error α → Prop}
    {a : side.Action α} {W : Diary (backend patience) → Nat → Pause side.signature → Prop}
    (hfail : ∀ e, Q diary now (.error e))
    (ha : Paces W Q (Activity.guard i.token (i.fail (B := side)).outcome a.outcome) diary now) :
    Paces W Q (i.guard a).outcome diary now := by
  refine paces_silent (r := .isCancelled i.token) rfl nofun fun cancelled : Bool => ?_
  cases cancelled with
  | true => exact paces_fail hfail
  | false => exact ha

/-- An attempt to resolve the node. -/
theorem paces_node (hvain : Vain o selector diary) :
    Paces (StillVain o selector) (Looked (fun _ => True) o selector)
      ((Locator.node o () selector).resolve (browser patience) i).outcome diary now := by
  have hgiven (ms : Nat) : Paces (StillVain o selector) (Given o selector)
      (i.guard ((pages patience).waitForSelector () selector (o.wait ms))).outcome diary now :=
    paces_interrupt (fun e => hvain) (paces_waitForSelector hvain)
  have hremaining : Paces (StillVain o selector)
      (fun last later (_ : Except Error Nat) => last = diary ∧ later = now)
      (i.remaining : side.Action Nat).outcome diary now := by
    unfold Interrupt.remaining
    cases i.deadline with
    | none => exact ⟨rfl, rfl⟩
    | some deadline => exact paces_actionClock ⟨rfl, rfl⟩
  refine paces_andThen.mpr (hremaining.mono ?_)
  rintro _ _ r ⟨rfl, rfl⟩
  cases r with
  | error e => exact hvain
  | ok ms =>
    refine paces_andThen.mpr ((hgiven ms).mono fun diary now r hr => ?_)
    rcases r with e | _ | h
    · exact hr
    · exact hr
    · exact ⟨trivial, hr⟩

theorem paces_interruption {W : Diary (backend patience) → Nat → Pause side.signature → Prop}
    {Q : Diary (backend patience) → Nat → Except Error (Option Error) → Prop}
    (h : ∀ e, Q diary now (.ok e)) :
    Paces W Q (i.interruption (B := side)).outcome diary now := by
  refine paces_actionSilent (r := .isCancelled i.token) rfl nofun fun cancelled : Bool => ?_
  cases cancelled with
  | false => exact h none
  | true =>
    refine paces_andThen.mpr (paces_actionSilent (r := .isCancelled i.expired) rfl nofun fun expired : Bool => ?_)
    cases expired <;> exact h _

theorem paces_pause (hvain : Vain o selector diary) :
    Paces (StillVain o selector) (fun diary _ (_ : Except Error Unit) => Vain o selector diary)
      (i.pause (B := side)).outcome diary now := by
  unfold Interrupt.pause
  rw [← bind_pure (Action.sleep (B := side) retryDelay)]
  refine paces_interrupt (fun e => hvain)
    (paces_guard_actionSleep (fun later => paces_fail fun e => hvain) hvain ?_)
  exact hvain

/-- Attempts go on as long as all polls are in vain. -/
theorem paces_attempts (fuel : Nat) (hvain : Vain o selector diary) :
    Paces (StillVain o selector) (Looked (fun found => found.isSome = true) o selector)
      ((Locator.node o () selector).attempts (browser patience) .find i fuel).outcome diary now := by
  induction fuel generalizing diary now with
  | zero => exact Activity.paces_never hvain
  | succ fuel ih =>
    have hattempt : Paces (StillVain o selector) (Looked (fun found => found.isSome = true) o selector)
        ((Locator.node o () selector).attempt (browser patience) .find i).outcome diary now := by
      refine paces_andThen.mpr ((paces_node hvain).mono fun diary now r hr => ?_)
      cases r with
      | error e => exact hr
      | ok h => exact ⟨rfl, hr.2⟩
    refine paces_attempt.mpr (hattempt.mono fun diary now r hr => ?_)
    cases r with
    | ok found => exact hr
    | error e =>
      refine paces_andThen.mpr (paces_interruption fun found => ?_)
      cases found with
      | some e => exact hr
      | none =>
        refine paces_andThen.mpr ((paces_pause hr).mono fun diary now r hvain => ?_)
        cases r with
        | error e => exact hvain
        | ok _ => exact ih hvain

/-- A run of attempts, with its deadline and its end. -/
theorem paces_run (signal : Option Activity.Token) (hvain : Vain o selector diary) :
    Paces (StillVain o selector) (Looked (fun found => found.isSome = true) o selector)
      ((Locator.node o () selector).run (browser patience) .find signal).outcome diary now := by
  unfold Locator.run Interrupt.within
  refine paces_actionSilent (r := .newToken signal) rfl nofun fun token => ?_
  refine paces_actionSilent (r := .newToken none) rfl nofun fun expired => ?_
  dsimp only
  split
  · exact paces_attempts _ hvain
  · refine paces_actionClock ?_
    refine paces_actionSilent (r := .newToken none) rfl nofun fun ended => ?_
    refine paces_actionSilent (r := .fork (.expire _ ended)) rfl nofun fun _ => ?_
    refine paces_attempt.mpr (((paces_protect [.cancel ended]).mpr (paces_attempts _ hvain)).mono ?_)
    intro diary now r hr
    refine paces_actionSilent (r := .cancel ended) rfl nofun fun _ => ?_
    exact paces_ofExcept hr

theorem paces_releaseIn {W : Diary (backend patience) → Nat → Pause side.signature → Prop} {h : Handle}
    {Q : Diary (backend patience) → Nat → Except Error Unit → Prop}
    (hQ : ∀ w : Page, Q (diary ++ [⟨now, ⟨w, .release h⟩⟩]) now (.ok ())) :
    Paces W Q ((browser patience).realm.releaseIn h).outcome diary now := by
  refine ⟨fun hwaits => absurd hwaits Bool.false_ne_true, ?_, nofun⟩
  rintro a w v later - rfl
  exact hQ w

/-- Whoever waits for the node releases what was found. -/
theorem paces_wait (signal : Option Activity.Token) (hvain : Vain o selector diary) :
    Paces (StillVain o selector) (Looked (· = none) o selector)
      (Terminal.wait.action (browser patience) (.node o () selector) signal).outcome diary now := by
  refine paces_andThen.mpr (paces_andThen.mpr (paces_andThen.mpr ((paces_run signal hvain).mono ?_)))
  rintro diary now (e | found) hr
  · exact hr
  · obtain ⟨hsome, hfound⟩ := hr
    obtain ⟨h, rfl⟩ := Option.isSome_iff_exists.mp hsome
    exact paces_releaseIn fun w => ⟨rfl, hfound.concat rfl⟩

end Paces

/-! ### Runs -/

/-- Somebody waits for a node in a scene. -/
structure Watch where
  scene : Scene
  patience : Nat
  options : Locator.Options
  selector : String
  signalled : Bool

namespace Watch

variable (w : Watch)

/-- What is called. -/
def call : Call := ⟨.node w.options () w.selector, .wait, w.signalled⟩

/-- The call after so many turns of its own and of the background. -/
def run (turns : Nat) : Run side.signature Page (Except Error (Option Handle)) :=
  (Run.start (backend w.patience) (w.call.activity (browser w.patience)) (w.scene.timeline w.patience) none).finish
    (backend w.patience) turns

/-- The polls of the call in so many turns, in order. -/
def polls (turns : Nat) : List (Poll w.patience) :=
  pollsOf w.selector
    (diaryOf (backend w.patience) (w.call.activity (browser w.patience)) (w.scene.timeline w.patience) turns)

/-- After so many turns the call has succeeded, at the time of the last poll, which has found what is asked
for, and no other one has. -/
def Succeeded (turns : Nat) (e : Poll w.patience) : Prop :=
  (w.run turns).main = .done (.ok none) ∧ (w.run turns).timeline.clock = e.time ∧
    ∃ vain, w.polls turns = vain ++ [e] ∧ ∀ e' ∈ vain, ¬ e'.page.Offers w.options w.selector

variable {w}

theorem paced (turns : Nat) : (w.run turns).Paced (StillVain w.options w.selector)
    (Looked (· = none) w.options w.selector)
    (diaryOf (backend w.patience) (w.call.activity (browser w.patience)) (w.scene.timeline w.patience) turns) :=
  paced_of_run (paces_wait w.call.signal vain_nil) turns

/-- A call that has not ended has polled in vain, and one that has ended has found something or failed. -/
theorem standing (turns : Nat) :
    (∀ e ∈ w.polls turns, ¬ e.page.Offers w.options w.selector) ∧ (∀ v, (w.run turns).main ≠ .done (.ok v)) ∨
      ∃ e, e.page.Offers w.options w.selector ∧ w.Succeeded turns e := by
  obtain ⟨since, hpaces, hsince⟩ := w.paced turns
  unfold Run.Since at hsince
  cases hmain : (w.run turns).main with
  | ask r ws duties next stop =>
    rw [hmain] at hpaces hsince
    exact .inl ⟨hpaces.1 hsince.1, fun v => nofun⟩
  | done r =>
    rw [hmain] at hpaces hsince
    cases r with
    | error err => exact .inl ⟨hpaces, fun v => nofun⟩
    | ok v =>
      obtain ⟨rfl, vain, e, hpolls, hvain, hoffers, htime⟩ := hpaces
      exact .inr ⟨e, hoffers, hmain, hsince.trans htime.symm, vain, hpolls, hvain⟩

end Watch

/-- Whatever happens on the page, who waits for a node succeeds at the first poll at which the selector has
an element that is not visible, when a hidden one is asked for, and at that time.  That is the only way to
succeed: a poll that finds no element at all is none. -/
theorem succeeds_of_poll {w : Watch} (hhidden : w.options.visibility = some .hidden) (turns : Nat) :
    (∀ e ∈ w.polls turns, (∃ id, e.page.served.lookup w.selector = some id ∧ (e.page.element id).visible = false) →
        w.Succeeded turns e) ∧
      ∀ v, (w.run turns).main = .done (.ok v) → ∃ e ∈ w.polls turns,
        ∃ id, e.page.served.lookup w.selector = some id ∧ (e.page.element id).visible = false := by
  have hoffers (p : Page) : p.Offers w.options w.selector ↔
      ∃ id, p.served.lookup w.selector = some id ∧ (p.element id).visible = false := by
    simp only [Page.Offers, Locator.Options.meets, hhidden, Bool.not_eq_true']
  simp only [← hoffers]
  rcases w.standing turns with ⟨hvain, hgoing⟩ | ⟨last, hlast, hsucceeded⟩
  · exact ⟨fun e he hfound => absurd hfound (hvain e he), fun v hmain => absurd hmain (hgoing v)⟩
  · obtain ⟨-, -, vain, hpolls, hnone⟩ := id hsucceeded
    refine ⟨fun e he hfound => ?_, fun v _ => ⟨last, by rw [hpolls]; simp, hlast⟩⟩
    rw [hpolls] at he
    rcases List.mem_append.mp he with he | he
    · exact absurd hfound (hnone e he)
    · rwa [List.mem_singleton.mp he]

/-! ### A panel that comes late, and one that never comes -/

/-- To wait for the panel to be hidden, for 150 ms. -/
def panelWatch (changes : List Timed) : Watch where
  scene := ⟨Page.ofElements #[{ (default : Element) with visible := false }], 0, false, changes.map .change⟩
  patience := 0
  options := { Locator.Options.default with timeout := 150, visibility := some .hidden }
  selector := "#panel"
  signalled := false

/-- The panel comes after 50 ms, and is hidden. -/
def lateWatch : Watch := panelWatch [⟨50, .add "#panel" 0⟩]

/-- The first poll finds no panel, and the wait succeeds at the second, after 100 ms. -/
theorem succeeds_of_latePanel : lateWatch.options.visibility = some .hidden ∧
    ∃ e, (∃ id, e.page.served.lookup "#panel" = some id ∧ (e.page.element id).visible = false) ∧
      lateWatch.Succeeded 12 e ∧ e.time = 100 ∧ (lateWatch.polls 12).map (·.time) = [0, 100] := by
  have hmain : (lateWatch.run 12).main = .done (.ok none) := by cbv
  have hclock : (lateWatch.run 12).timeline.clock = 100 := by cbv
  have htimes : (lateWatch.polls 12).map (·.time) = [0, 100] := by cbv
  obtain ⟨hfinds, hsucceeds⟩ := succeeds_of_poll (w := lateWatch) rfl 12
  obtain ⟨e, he, hhides⟩ := hsucceeds none hmain
  have hsucceeded := hfinds e he hhides
  exact ⟨rfl, e, hhides, hsucceeded, hsucceeded.2.1.symm.trans hclock, htimes⟩

/-- There is no panel at either poll, and the wait fails at its deadline. -/
theorem times_out_of_absence :
    (∃ e ∈ (panelWatch []).polls 12, e.time = 0 ∧ e.page.served.lookup "#panel" = none) ∧
      ((panelWatch []).run 12).main = .done (.error (.timeout "Timed out after waiting 150ms")) ∧
      ((panelWatch []).run 12).timeline.clock = 150 := by
  have htimes : ((panelWatch []).polls 12).map (·.time) = [0, 100] := by cbv
  have habsent : ((panelWatch []).polls 12).all (fun e => (e.page.served.lookup "#panel").isNone) = true := by cbv
  refine ⟨?_, by cbv, by cbv⟩
  have hmem : 0 ∈ ((panelWatch []).polls 12).map (·.time) := by
    rw [htimes]
    exact List.mem_cons_self
  obtain ⟨e, he, htime⟩ := List.mem_map.mp hmem
  exact ⟨e, he, htime, Option.isNone_iff_eq_none.mp (List.all_eq_true.mp habsent e he)⟩

end Wayfind.Simulation
