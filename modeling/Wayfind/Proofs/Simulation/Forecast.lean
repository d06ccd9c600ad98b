/-
What comes of attempts that take no time.

A `Forecast` is a page and what will happen to it.  While every attempt of a call ends at once,
what the attempts come to does not depend on anything else that runs: each is made on the
page as the one before it and the changes since then have left it (`pageAt`), and ends
`outright` (`trial`).  A call is `Swift` on a forecast when its attempts are of this kind: it
calls a page function, or looks for an element that it finds there.
-/
import Wayfind.Proofs.Activity.Clockwork
import Wayfind.Proofs.Simulation.Acting
import Wayfind.Proofs.Simulation.Award

namespace Wayfind.Simulation

open Activity (outright outright_bind outright_guard outright_protect outright_recorded)
open Keeping (Terminal)
open PageSide (Action releaseDuty)

/-- A page, and what will happen to it. -/
structure Forecast where
  page : Page
  clock : Nat
  changes : List Timed

/-- The scene in which that happens, and nobody cancels the signal. -/
def Forecast.scene (c : Forecast) : Scene := ⟨c.page, c.clock, false, c.changes.map .change⟩

/-- The page after changes. -/
def Page.after (p : Page) (changes : List Timed) : Page := changes.foldl (fun p t => t.change.apply p) p

/-! ### Attempts -/

/-- The value behind what an operation has found is one that it asks for. -/
def Page.Accepts (p : Page) : Terminal → Option Handle → Prop
  | .waitAs reader, some h => (Json.Reader.ofJson? reader (p.jsonOf h.target)).isSome = true
  | _, _ => True

namespace Call

variable (call : Call)

/-- What may interrupt a call that is started at such a time, before any other: its token is the
first after the signal. -/
def interrupt (began : Nat) : Interrupt :=
  ⟨1, 2, if call.timeout = 0 then none else some (began + call.timeout), call.timeout⟩

/-- A single attempt. -/
def attempt (patience began : Nat) : side.Task (Except Error (Option Handle)) :=
  (call.locator.attempt (browser patience) call.terminal.operation (call.interrupt began)).outcome

/-- What the attempt with a number comes to on such a page, if it ends at once: its outcome, and the
page after it. -/
def trial (patience began number : Nat) (p : Page) : Option (Except Error (Option Handle) × Page) :=
  outright (backend patience) (began + 100 * number) (call.attempt patience began) p

end Call

namespace Forecast

variable (c : Forecast)

/-- The page after the changes of one millisecond, in the order in which they are listed. -/
def strike (time : Nat) (p : Page) : Page := p.after (c.changes.filter (·.time = time))

/-- The page so many milliseconds after a time. -/
def lapse (p : Page) (time : Nat) : Nat → Page
  | 0 => p
  | ms + 1 => c.strike (time + ms + 1) (lapse p time ms)

/-- The page after what should have happened already. -/
def overdue (p : Page) : Page := p.after (c.changes.filter (·.time ≤ c.clock))

variable (patience : Nat) (call : Call)

/-- The page when the operation pauses after an attempt on such a page.  What is overdue happens in
the first pause. -/
def restAfter (number : Nat) (p : Page) : Page :=
  let left := ((call.trial patience c.clock number p).map (·.2)).getD p
  if number = 0 then c.overdue left else left

/-- The page when the attempt with a number begins. -/
def pageAt : Nat → Page
  | 0 => c.page
  | number + 1 => c.lapse (c.restAfter patience call number (pageAt number)) (c.clock + 100 * number) 100

/-- What the attempt with a number comes to. -/
def verdict (number : Nat) : Option (Except Error (Option Handle)) :=
  (call.trial patience c.clock number (c.pageAt patience call number)).map (·.1)

/-- The attempt with a number would succeed. -/
def Succeeds (number : Nat) : Prop := ∃ v, c.verdict patience call number = some (.ok v)

/-- Whatever the attempt with a number would find, the value behind it is one that the call asks for. -/
def Accepts (number : Nat) : Prop := ∀ r p,
  call.trial patience c.clock number (c.pageAt patience call number) = some (.ok r, p) → p.Accepts call.terminal r

/-- The attempt with a number would fail. -/
def Fails (number : Nat) : Prop := ∃ e, c.verdict patience call number = some (.error e)

end Forecast

/-- The element that a selector is served is there, visible or hidden as it should be, and not held
back. -/
def Page.Shows (p : Page) (selector : String) (visibility : Option Visibility) : Prop :=
  p.delays.lookup selector = none ∧ ∃ id, p.served.lookup selector = some id ∧
    ∀ v ∈ visibility, (p.element id).visible = decide (v = .visible)

/-- Attempts of the call take no time: it calls a page function, or looks for an element that is there
whenever an attempt begins. -/
def Forecast.Swift (c : Forecast) (patience : Nat) (call : Call) : Prop :=
  match call.locator with
  | .function .. => True
  | .node o _ selector => ∀ number, (∀ earlier < number, c.Fails patience call earlier) →
      (call.timeout = 0 ∨ 100 * number < call.timeout) →
      (c.pageAt patience call number).Shows selector o.visibility
  | _ => False

/-! ### Time goes by -/

section Lapse

variable {c : Forecast} {p : Page}

theorem lapse_add (time first second : Nat) :
    c.lapse p time (first + second) = c.lapse (c.lapse p time first) (time + first) second := by
  induction second with
  | zero => rfl
  | succ second ih =>
    rw [Nat.add_succ, Forecast.lapse, ih, Forecast.lapse, Nat.add_assoc time first second]

/-- Up to the next change nothing happens. -/
theorem lapse_idle {time ms : Nat} (h : ∀ t ∈ c.changes, t.time ≤ time ∨ time + ms < t.time) :
    c.lapse p time ms = p := by
  induction ms with
  | zero => rfl
  | succ ms ih =>
    have hnone : c.changes.filter (·.time = time + ms + 1) = [] := by
      refine List.filter_eq_nil_iff.mpr fun t ht => ?_
      have := h t ht
      simp only [decide_eq_true_eq]
      omega
    rw [Forecast.lapse, ih fun t ht => by have := h t ht; omega, Forecast.strike, hnone]
    rfl

/-- The next change comes. -/
theorem lapse_next {time next : Nat} (hnext : time < next)
    (h : ∀ t ∈ c.changes, t.time ≤ time ∨ next ≤ t.time) :
    c.lapse p time (next - time) = c.strike next p := by
  obtain ⟨ms, rfl⟩ := Nat.exists_eq_add_of_lt hnext
  have hms : time + ms + 1 - time = ms + 1 := by omega
  rw [hms, Forecast.lapse, lapse_idle fun t ht => by have := h t ht; omega]

end Lapse

/-! ### Attempts that end at once -/

/-- The question with which an attempt begins, whose locator is a node or a function. -/
def Query.begins : Query → Bool
  | .delayOf _ | .callHandle _ => true
  | _ => false

/-- How many attempts have begun. -/
def begun (record : List Instant) : Nat := record.countP (·.query.begins)

theorem begun_concat (record : List Instant) (i : Instant) :
    begun (record ++ [i]) = begun record + if i.query.begins then 1 else 0 := by
  rw [begun, begun, List.countP_append, List.countP_singleton]

variable {patience time : Nat} {α β : Type} {w : (recording patience).World}

theorem outright_andThen {a : side.Action α} {f : α → side.Action β} :
    outright (recording patience) time (a >>= f).outcome w =
      (outright (recording patience) time a.outcome w).bind fun x => match x.1 with
        | .ok v => outright (recording patience) time (f v).outcome x.2
        | .error e => some (.error e, x.2) := by
  rw [outcome_bind, outright_bind]
  congr 1
  funext x
  cases x.1 <;> rfl

theorem outright_ask {q : Query} {f : q.Answer → side.Action β} :
    outright (recording patience) time (ask q >>= f).outcome w =
      outright (recording patience) time (f (w.1.answer q).1).outcome
        ((w.1.answer q).2, w.2 ++ [⟨w.1, q⟩]) :=
  outright_andThen

theorem outright_attempt {a : side.Action α} {f : Except Error α → side.Action β} :
    outright (recording patience) time (a.attempt >>= f).outcome w =
      (outright (recording patience) time a.outcome w).bind fun x =>
        outright (recording patience) time (f x.1).outcome x.2 := by
  rw [outcome_attempt_bind, outright_bind]

/-- Where nothing is cancelled, a guard has no part. -/
theorem outright_guarded (i : Interrupt) (a : side.Action α) :
    outright (recording patience) time (i.guard a).outcome w =
      outright (recording patience) time a.outcome w :=
  outright_guard i.token (Interrupt.fail i).outcome a.outcome

theorem outright_remaining (time : Nat) (w : (recording patience).World) (i : Interrupt) :
    ∃ ms, outright (recording patience) time (i.remaining : side.Action Nat).outcome w = some (.ok ms, w) ∧
      (i.deadline = none ∨ 0 < ms) := by
  unfold Interrupt.remaining
  cases i.deadline with
  | none => exact ⟨0, rfl, .inl rfl⟩
  | some deadline => exact ⟨max (deadline - time) 1, rfl, .inr (Nat.le_max_right _ _)⟩

/-- What is done with one handle is done at once. -/
theorem Does.outright {h : Handle} {Q : α → List PageMoment → Page → Prop} {t : side.Task α}
    {steps : List PageMoment} {p : Page} (ht : Does h Q t steps p) (time : Nat)
    (before : List PageMoment) : ∃ a v,
      outright (recording patience) time t (p, before) = some (a, v) ∧ begun v.2 = begun before := by
  induction t generalizing steps p before with
  | done a => exact ⟨a, (p, before), rfl, rfl⟩
  | ask r ws duties next stop ihn ihs =>
    cases r with
    | query q =>
      obtain ⟨a, v, hv, hbegun⟩ := @ihn (p.answer q).1 _ _ ht.2 (before ++ [⟨p, q⟩])
      obtain ⟨change, habout⟩ := ht.1
      have hnot : q.begins = false := by
        cases q with
        | delayOf | callHandle => exact absurd habout nofun
        | _ => rfl
      refine ⟨a, v, hv, hbegun.trans ?_⟩
      rw [begun_concat, hnot]
      rfl
    | announce => exact ihn () ht before
    | _ => exact absurd ht id

section Attempt

variable {l : Locator side.Page} {i : Interrupt}

/-- A handle was found, and is not released. -/
def Page.Holds (p : Page) (r : Option Handle) : Prop := ∃ h, r = some h ∧ p.isReleased h = false

/-- Who has found a handle at once ends the attempt at once. -/
theorem outright_of_resolve (op : Operation) {r : Except Error Handle} {v : (recording patience).World}
    (hfound : outright (recording patience) time (l.resolve (browser patience) i).outcome w = some (r, v))
    (hlive : ∀ h, r = .ok h → v.1.isReleased h = false) :
    ∃ x u, outright (recording patience) time (l.attempt (browser patience) op i).outcome w = some (x, u) ∧
      begun u.2 = begun v.2 ∧ (op = .find → ∀ found, x = .ok found → u.1.Holds found) := by
  have hattempt : outright (recording patience) time (l.attempt (browser patience) op i).outcome w = _ :=
    outright_andThen
  rw [hfound] at hattempt
  rcases r with e | h
  · exact ⟨.error e, v, hattempt, rfl, fun _ found hsame => by cases hsame⟩
  by_cases hop : op = .find
  · subst hop
    exact ⟨.ok (some h), v, hattempt, rfl, fun _ _ hsame => ⟨h, (Except.ok.inj hsame).symm, hlive h rfl⟩⟩
  obtain ⟨x, u, hu, hbegun⟩ : ∃ x u, outright (recording patience) time
      (Locator.act (realm patience) l.options h op).outcome v = some (x, u) ∧ begun u.2 = begun v.2 :=
    (does_act l.options v.1 hop).outright time v.2
  have hacted : outright (recording patience) time
      ((i.guard (Locator.act (realm patience) l.options h op)).protect [releaseDuty h]).outcome v =
        some (x, u) := by
    refine (outright_protect _ _).trans ?_
    rw [outright_guarded]
    exact hu
  have hreleased : begun (u.2 ++ [⟨u.1, .release h⟩]) = begun v.2 :=
    (begun_concat u.2 ⟨u.1, .release h⟩).trans hbegun
  let rest (outcome : Except Error Unit) : side.Action (Option Handle) := do
    ((realm patience).releaseIn h).protect [releaseDuty h]
    Action.ofExcept outcome
    return none
  have hrest := (outright_attempt (f := rest)).trans (congrArg (Option.bind · _) hacted)
  cases op with
  | find => exact absurd rfl hop
  | _ =>
    cases x with
    | error e => exact ⟨.error e, _, hattempt.trans hrest, hreleased, fun hfind => absurd hfind hop⟩
    | ok a => exact ⟨.ok none, _, hattempt.trans hrest, hreleased, fun hfind => absurd hfind hop⟩

theorem Page.isReleased_newHandle (p : Page) (target : Target) :
    (p.newHandle target).2.isReleased (p.newHandle target).1 = false := by
  simp [Page.newHandle, Page.isReleased]

theorem Page.isReleased_callHandle {p : Page} {script : String} {h : Handle}
    (hmade : (p.callHandle script).1 = .ok h) : (p.callHandle script).2.isReleased h = false := by
  unfold Page.callHandle at hmade ⊢
  split at hmade
  · rename_i target after hcall
    rw [← Except.ok.inj hmade]
    exact Page.isReleased_newHandle after target
  · exact absurd hmade nofun

/-- A page function is called at once. -/
theorem outright_function (o : Locator.Options) (script : String) :
    ∃ r v, outright (recording patience) time
      ((Locator.function o () script).resolve (browser patience) i).outcome w = some (r, v) ∧
      begun v.2 = begun w.2 + 1 ∧ ∀ h, r = .ok h → v.1.isReleased h = false := by
  obtain ⟨ms, hms, -⟩ := outright_remaining time w i
  have hresolve : outright (recording patience) time
      ((Locator.function o () script).resolve (browser patience) i).outcome w = _ :=
    outright_andThen (a := (i.remaining : side.Action Nat)) (f := fun _ => i.guard (callHandle script))
  rw [hms] at hresolve
  have hcall : outright (recording patience) time (i.guard (callHandle script)).outcome w =
      some ((w.1.callHandle script).1, (w.1.callHandle script).2, w.2 ++ [⟨w.1, .callHandle script⟩]) := by
    refine (outright_guarded i _).trans
      ((outright_ask (q := .callHandle script) (f := fun r => Action.ofExcept r)).trans ?_)
    exact congrArg (fun p => outright (recording patience) time p _) (outcome_ofExcept _)
  exact ⟨_, _, hresolve.trans hcall, begun_concat w.2 ⟨w.1, .callHandle script⟩,
    fun _ => Page.isReleased_callHandle⟩

/-- What is there is found at the first look. -/
theorem Page.Shows.look {p : Page} {selector : String} {o : Locator.Options}
    (h : p.Shows selector o.visibility) (timeout : Nat) : ∃ handle after,
      p.look selector ⟨timeout, o.visibility == some .visible, o.visibility == some .hidden⟩ =
        (.found handle, after) ∧ after.isReleased handle = false := by
  obtain ⟨-, id, hserved, hvisible⟩ := h
  have hmeets : (if (o.visibility == some .hidden) = true then !(p.element id).visible
      else !(o.visibility == some .visible) || (p.element id).visible) = true := by
    rcases hv : o.visibility with _ | v
    · rfl
    · rw [hv] at hvisible
      rw [hvisible v rfl]
      cases v <;> rfl
  refine ⟨(p.newHandle (.element id)).1, (p.newHandle (.element id)).2, ?_, p.isReleased_newHandle _⟩
  simp only [Page.look, hserved]
  rw [if_pos hmeets]

/-- An element that is there is found at once. -/
theorem outright_node {o : Locator.Options} {selector : String} (hshows : w.1.Shows selector o.visibility)
    (hpatience : i.deadline = none → 0 < patience) :
    ∃ r v, outright (recording patience) time
      ((Locator.node o () selector).resolve (browser patience) i).outcome w = some (r, v) ∧
      begun v.2 = begun w.2 + 1 ∧ ∀ h, r = .ok h → v.1.isReleased h = false := by
  obtain ⟨ms, hms, hleft⟩ := outright_remaining time w i
  obtain ⟨handle, after, hlook, hlive⟩ := hshows.look ms
  have hturns : ∃ fuel, turns patience ms lookInterval = fuel + 1 := by
    unfold turns
    split
    · rename_i hzero
      have hnone := hleft.resolve_right (by rw [hzero]; exact Nat.lt_irrefl 0)
      exact ⟨patience - 1, (Nat.succ_pred_eq_of_pos (hpatience hnone)).symm⟩
    · exact ⟨_, rfl⟩
  obtain ⟨fuel, hfuel⟩ := hturns
  let wait : SelectorWait := ⟨ms, o.visibility == some .visible, o.visibility == some .hidden⟩
  let record := w.2 ++ [⟨w.1, .delayOf selector⟩]
  have hwait : outright (recording patience) time
      (i.guard ((pages patience).waitForSelector () selector wait)).outcome w =
        some (.ok (some handle), after, record ++ [⟨w.1, .look selector wait⟩]) := by
    have hlooked : outright (recording patience) time
        (deadlineOf ms >>= fun deadline => lookUntil selector wait deadline
          (turns patience ms lookInterval)).outcome (w.1, record) =
          some (.ok (some handle), after, record ++ [⟨w.1, .look selector wait⟩]) := by
      have hdeadline : ∃ deadline, outright (recording patience) time (deadlineOf ms).outcome
          (w.1, record) = some (.ok deadline, w.1, record) := by
        unfold deadlineOf
        split
        · exact ⟨none, rfl⟩
        · exact ⟨some (time + ms), rfl⟩
      obtain ⟨deadline, hdeadline⟩ := hdeadline
      refine outright_andThen.trans ?_
      rw [hdeadline, hfuel]
      have hanswer : w.1.answer (.look selector wait) = (.found handle, after) := hlook
      refine (outright_ask (q := .look selector wait)).trans ?_
      dsimp only
      rw [hanswer]
      rfl
    refine (outright_guarded i _).trans ((outright_ask (q := .delayOf selector)).trans ?_)
    have hdelay : (w.1.answer (.delayOf selector)).1 = none := hshows.1
    rw [hdelay]
    exact hlooked
  have hfound : outright (recording patience) time
      ((Locator.node o () selector).resolve (browser patience) i).outcome w = some (.ok handle,
        after, record ++ [⟨w.1, .look selector wait⟩]) := by
    show outright (recording patience) time ((i.remaining : side.Action Nat) >>= fun _ => _).outcome w = _
    refine outright_andThen.trans ?_
    rw [hms]
    refine (outright_andThen (a := i.guard ((pages patience).waitForSelector () selector wait))).trans ?_
    rw [hwait]
    rfl
  refine ⟨.ok handle, _, hfound, (begun_concat _ ⟨w.1, .look selector wait⟩).trans ?_, ?_⟩
  · exact begun_concat w.2 ⟨w.1, .delayOf selector⟩
  · rintro h hsame
    rw [← Except.ok.inj hsame]
    exact hlive

end Attempt

/-- On a forecast on which a call is swift, an attempt that is made in time ends at once. -/
theorem Forecast.Swift.trial {c : Forecast} {call : Call} {number : Nat} (hswift : c.Swift patience call)
    (hearlier : ∀ earlier < number, c.Fails patience call earlier)
    (htime : call.timeout = 0 ∨ 100 * number < call.timeout) (hpatience : call.timeout = 0 → 0 < patience)
    (record : List Instant) :
    ∃ x v, outright (recording patience) (c.clock + 100 * number) (call.attempt patience c.clock)
        (c.pageAt patience call number, record) = some (x, v) ∧
      call.trial patience c.clock number (c.pageAt patience call number) = some (x, v.1) ∧
      begun v.2 = begun record + 1 ∧
      (call.terminal.operation = .find → ∀ found, x = .ok found → v.1.Holds found) := by
  have hdeadline : (call.interrupt c.clock).deadline = none → 0 < patience := by
    unfold Call.interrupt
    dsimp only
    split
    · rename_i hzero
      exact fun _ => hpatience hzero
    · exact nofun
  have hfound : ∃ r v, outright (recording patience) (c.clock + 100 * number)
      (call.locator.resolve (browser patience) (call.interrupt c.clock)).outcome
      (c.pageAt patience call number, record) = some (r, v) ∧ begun v.2 = begun record + 1 ∧
      ∀ h, r = .ok h → v.1.isReleased h = false := by
    unfold Forecast.Swift at hswift
    rcases hlocator : call.locator with ⟨o, page, selector⟩ | ⟨o, page, script⟩ | _ | _ | _ <;>
      rw [hlocator] at hswift
    · exact outright_node (w := (c.pageAt patience call number, record))
        (hswift number hearlier htime) hdeadline
    · exact outright_function (w := (c.pageAt patience call number, record)) o script
    all_goals exact absurd hswift id
  obtain ⟨r, v, hresolve, hbegun, hlive⟩ := hfound
  obtain ⟨x, u, hu, hsame, hfind⟩ := outright_of_resolve call.terminal.operation hresolve hlive
  refine ⟨x, u, hu, ?_, hsame.trans hbegun, hfind⟩
  have hforget : _ = outright (backend patience) (c.clock + 100 * number) (call.attempt patience c.clock)
      (c.pageAt patience call number) :=
    outright_recorded (B := backend patience) (call.attempt patience c.clock)
      (c.pageAt patience call number, record)
  exact hforget.symm.trans (congrArg _ hu)

end Wayfind.Simulation
