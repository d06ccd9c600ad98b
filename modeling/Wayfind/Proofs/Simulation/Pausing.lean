/-
How an operation pauses between its attempts.

After an attempt that has failed at once an operation sleeps to the next hundred
milliseconds (`Pauses`); meanwhile the page changes and the deadline is waited for.  A pause
ends when its time has come (`Pauses.wakes`), or the deadline cancels it (`Pauses.expires`),
whichever is first.
-/
import Wayfind.Proofs.Simulation.Contest
import Wayfind.Proofs.Simulation.Forecast

namespace Wayfind.Simulation

open Activity (Token Tokens Duty Task Timeline Run Turn Request outright outright_protect)
open Activity.Timeline (advance resume wakeTime)
open Keeping (Terminal)
open PageSide (Action releaseDuty)

variable {patience : Nat} {α β : Type}

/-! ### An operation without its attempts -/

/-- What follows the attempts. -/
def concluding (patience : Nat) (t : Terminal) :
    Except Error (Option Handle) → side.Task (Except Error (Option Handle))
  | .error e => .done (.error e)
  | .ok r => (t.conclusion (browser patience) r).outcome

/-- The value behind a live handle is read, and the handle is released. -/
theorem advance_readOut (patience : Nat) (tl : Timeline side.signature (recording patience).World) {h : Handle}
    (hlive : tl.world.1.isReleased h = false) (f : Json → side.Action β) :
    ∃ w, advance (recording patience) (Terminal.readOut (browser patience) h >>= f).outcome tl =
        advance (recording patience) (f (tl.world.1.jsonOf h.target)).outcome { tl with world := w } ∧
      begun w.2 = begun tl.world.2 := by
  have hvalue : tl.world.1.jsonValue h = .ok (tl.world.1.jsonOf h.target) := if_neg (by simp [hlive])
  let read := tl.world.2 ++ [⟨tl.world.1, .jsonValue h⟩]
  have hbegun : begun (read ++ [⟨tl.world.1, .release h⟩]) = begun tl.world.2 :=
    (begun_concat read ⟨tl.world.1, .release h⟩).trans (begun_concat tl.world.2 ⟨tl.world.1, .jsonValue h⟩)
  let rest (value : Except Error Json) : side.Task (Except Error β) := (do
    ((realm patience).releaseIn h).protect [releaseDuty h]
    let doc ← Action.ofExcept value
    f doc : side.Action β).outcome
  refine ⟨(tl.world.1.release h, read ++ [⟨tl.world.1, .release h⟩]), ?_, hbegun⟩
  have hparts : (Terminal.readOut (browser patience) h >>= f).outcome =
      Activity.bind (((realm patience).jsonValue h).protect [releaseDuty h]).outcome rest := by
    refine (congrArg Action.outcome ?_).trans (outcome_attempt_bind _ _)
    simp only [Terminal.readOut, bind_assoc]
    rfl
  refine (congrArg (advance (recording patience) · tl) hparts).trans ?_
  show advance (recording patience)
    (Activity.bind (Activity.protect [releaseDuty h] (Action.ofExcept (tl.world.1.jsonValue h)).outcome) rest)
    { tl with world := (tl.world.1, read) } = _
  rw [hvalue]
  rfl

/-- Where attempts have found something, an operation ends at once, with success unless the value is not
one that it asks for. -/
theorem advance_conclude {t : Terminal} {r : Option Handle}
    (tl : Timeline side.signature (recording patience).World)
    (hr : t.operation = .find → tl.world.1.Holds r) :
    ∃ o w, advance (recording patience) (concluding patience t (.ok r)) tl =
        (.done o, { tl with world := w }) ∧
      begun w.2 = begun tl.world.2 ∧ (tl.world.1.Accepts t r → ∃ v, o = .ok v) := by
  cases t with
  | waitHandle =>
    obtain ⟨h, rfl, -⟩ := hr rfl
    exact ⟨.ok (some h), tl.world, rfl, rfl, fun _ => ⟨_, rfl⟩⟩
  | waitValue =>
    obtain ⟨h, rfl, hlive⟩ := hr rfl
    obtain ⟨w, hread, hbegun⟩ := advance_readOut patience tl hlive fun _ => pure (none : Option Handle)
    exact ⟨.ok none, w, hread, hbegun, fun _ => ⟨_, rfl⟩⟩
  | waitAs reader =>
    obtain ⟨h, rfl, hlive⟩ := hr rfl
    obtain ⟨w, hread, hbegun⟩ := advance_readOut patience tl hlive (Terminal.accept reader)
    unfold Terminal.accept at hread
    cases hvalue : Json.Reader.ofJson? reader (tl.world.1.jsonOf h.target) with
    | none =>
      rw [hvalue] at hread
      refine ⟨_, w, hread, hbegun, fun haccepts => ?_⟩
      have hsome : (Json.Reader.ofJson? reader (tl.world.1.jsonOf h.target)).isSome = true := haccepts
      rw [hvalue] at hsome
      exact absurd hsome Bool.false_ne_true
    | some value =>
      rw [hvalue] at hread
      exact ⟨.ok none, w, hread, hbegun, fun _ => ⟨_, rfl⟩⟩
  | wait =>
    obtain ⟨h, rfl, -⟩ := hr rfl
    exact ⟨.ok none, _, rfl, begun_concat tl.world.2 ⟨tl.world.1, .release h⟩, fun _ => ⟨_, rfl⟩⟩
  | _ => cases r <;> exact ⟨.ok none, tl.world, rfl, rfl, fun _ => ⟨_, rfl⟩⟩

/-- Once an action is over its end is told, before what follows. -/
theorem bind_ended (ended : Token) (a : side.Action α) (f : Except Error α → side.Task β) :
    Activity.bind (do
      let outcome ← (a.protect [.cancel ended]).attempt
      Action.cancel ended
      Action.ofExcept outcome : side.Action α).outcome f =
      Activity.bind (Activity.protect [.cancel ended] a.outcome) fun r =>
        Activity.bind (Activity.perform (.cancel ended)) fun _ => f r := by
  rw [outcome_attempt_bind, Activity.bind_assoc]
  refine congrArg (Activity.bind _) (funext fun r => ?_)
  have hended : (Action.cancel ended >>= fun _ => Action.ofExcept r : side.Action α).outcome =
      Activity.bind (Activity.perform (.cancel ended)) fun _ => .done r :=
    (outcome_lift_bind (B := side) (Activity.perform (.cancel ended)) fun _ => Action.ofExcept r).trans
      (congrArg (Activity.bind _) (funext fun _ => outcome_ofExcept r))
  rw [hended]
  exact Activity.bind_assoc _ _ _

theorem protect_nil (p : side.Task α) : Activity.protect [] p = p := by
  induction p with
  | done a => rfl
  | ask r ws own next stop ihn ihs => simp only [Activity.protect, ihn, ihs, List.append_nil]

namespace Call

variable (call : Call)

/-- The tokens of a call that is started before any other: the signal's, its own, that of its
deadline, and that of its end. -/
def tokens : Tokens :=
  ⟨#[⟨if call.signalled then [1] else [], false⟩, ⟨[], false⟩, ⟨[], false⟩] ++
    if call.timeout = 0 then #[] else #[⟨[], false⟩]⟩

/-- What falls due if the call is dropped during its attempts. -/
def duties : List (Duty side.signature) := if call.timeout = 0 then [] else [.cancel 3]

/-- What follows the attempts. -/
def closing (patience : Nat) (r : Except Error (Option Handle)) : side.Task (Except Error (Option Handle)) :=
  if call.timeout = 0 then concluding patience call.terminal r
  else Activity.bind (Activity.perform (.cancel 3)) fun _ => concluding patience call.terminal r

/-- So many more attempts, and what follows them. -/
def looping (patience began fuel : Nat) : side.Task (Except Error (Option Handle)) :=
  Activity.bind (Activity.protect call.duties (call.locator.attempts (browser patience)
    call.terminal.operation (call.interrupt began) fuel).outcome) (call.closing patience)

/-- The rest of a pause: to sleep until a time, unless the operation is interrupted. -/
def sleeping (began wake : Nat) : side.Action Unit :=
  .ofActivity (Activity.guard 1 (Interrupt.fail (call.interrupt began)).outcome
    (Activity.bind (Activity.perform (.sleepUntil wake)) fun _ => .done (.ok ())))

/-- The rest of a pause before so many more attempts. -/
def pausing (patience began wake fuel : Nat) : side.Task (Except Error (Option Handle)) :=
  Activity.bind (Activity.protect call.duties (call.sleeping began wake >>= fun _ =>
    call.locator.attempts (browser patience) call.terminal.operation (call.interrupt began) fuel).outcome)
    (call.closing patience)

/-- The timeline in which the first attempt is made, with the tokens that have been made for it. -/
def launched (tokens : Tokens) (tl : Timeline side.signature (recording patience).World) :
    Timeline side.signature (recording patience).World :=
  let named := { tl with tokens := tokens }
  if call.timeout = 0 then named else named.fork (recording patience) (.expire (call.interrupt tl.clock) 3)

/-- The timeline in which the first attempt is made. -/
def opened (tl : Timeline side.signature (recording patience).World) :
    Timeline side.signature (recording patience).World :=
  call.launched call.tokens tl

variable {call} {tl : Timeline side.signature (recording patience).World}

/-- A call makes attempts, and then what follows them. -/
theorem activity_eq :
    call.activity (browser patience) =
      Activity.bind (call.locator.run (browser patience) call.terminal.operation call.signal).outcome
        (concluding patience call.terminal) := by
  refine (congrArg Action.outcome (call.terminal.action_eq _ _ _)).trans ((outcome_bind _ _).trans ?_)
  refine congrArg (Activity.bind _) (funext fun r => ?_)
  cases r <;> rfl

/-- A call sets its deadline and then makes attempt after attempt, also when its signal was cancelled. -/
theorem advance_launched {cancelled : Bool}
    (htokens : tl.tokens = ⟨#[⟨[], cancelled⟩]⟩) :
    ∃ tokens, (cancelled = false → tokens = call.tokens) ∧
      advance (recording patience) (call.activity (browser patience)) tl =
        advance (recording patience) (call.looping patience tl.clock (turns patience call.timeout retryDelay))
          (call.launched tokens tl) := by
  obtain ⟨world, clock, tokens, inboxes, tasks, ready, nextTask, announced⟩ := tl
  obtain rfl : tokens = _ := htokens
  rw [activity_eq, Locator.run, Interrupt.within]
  have htimeout : call.locator.options.timeout = call.timeout := rfl
  unfold looping launched duties closing interrupt Call.tokens
  rw [htimeout]
  by_cases hzero : call.timeout = 0
  · simp only [hzero, if_true, protect_nil]
    rcases call with ⟨l, t, _ | _⟩
    · exact ⟨_, fun hnot => by rw [hnot]; rfl, rfl⟩
    · exact ⟨_, fun hnot => by rw [hnot]; rfl, rfl⟩
  · simp only [hzero, if_false]
    have hended := bind_ended 3 (call.locator.attempts (browser patience) call.terminal.operation
      ⟨1, 2, some (clock + call.timeout), call.timeout⟩ (turns patience call.timeout retryDelay))
      (concluding patience call.terminal)
    rcases call with ⟨l, t, _ | _⟩
    · exact ⟨_, fun hnot => by rw [hnot]; rfl, congrArg (fun p => advance (recording patience) p _) hended⟩
    · exact ⟨_, fun hnot => by rw [hnot]; rfl, congrArg (fun p => advance (recording patience) p _) hended⟩

variable (call) in
/-- A call sets its deadline and then makes attempt after attempt. -/
theorem advance_activity (htokens : tl.tokens = ⟨#[⟨[], false⟩]⟩) :
    advance (recording patience) (call.activity (browser patience)) tl =
      advance (recording patience) (call.looping patience tl.clock (turns patience call.timeout retryDelay))
        (call.opened tl) := by
  obtain ⟨tokens, hsame, hadvance⟩ := advance_launched htokens
  rw [hadvance, hsame rfl]
  rfl

/-! ### One attempt -/

section Looping

variable {began : Nat} (fuel : Nat) {v : (recording patience).World}

/-- What follows an attempt. -/
def again (call : Call) (patience began fuel : Nat) :
    Except Error (Option Handle) → side.Action (Option Handle)
  | .ok r => return r
  | .error _ => do
    match ← (call.interrupt began).interruption with
    | some e => throw e
    | none =>
      (call.interrupt began).pause
      call.locator.attempts (browser patience) call.terminal.operation (call.interrupt began) fuel

theorem looping_succ :
    call.looping patience began (fuel + 1) =
      Activity.bind (Activity.protect call.duties (call.attempt patience began)) fun r =>
        Activity.bind (Activity.protect call.duties (call.again patience began fuel r).outcome)
          (call.closing patience) := by
  have hattempts : (call.locator.attempts (browser patience) call.terminal.operation
      (call.interrupt began) (fuel + 1)).outcome =
      Activity.bind (call.attempt patience began) fun r => (call.again patience began fuel r).outcome := by
    refine (outcome_attempt_bind _ _).trans (congrArg (Activity.bind _) (funext fun r => ?_))
    cases r <;> rfl
  unfold looping
  rw [hattempts]
  exact (congrArg (fun p => Activity.bind p (call.closing patience)) (protect_bind _ _ _)).trans
    (Activity.bind_assoc _ _ _)

/-- The first attempt is made, and then the operation goes on as its outcome says. -/
theorem advance_looping {x : Except Error (Option Handle)} (hquiet : ∀ t, tl.isCancelled t = false)
    (hx : outright (recording patience) tl.clock (call.attempt patience began) tl.world = some (x, v)) :
    ∃ n, advance (recording patience) (call.looping patience began (fuel + 1)) tl =
      advance (recording patience) (Activity.bind (Activity.protect call.duties
        (call.again patience began fuel x).outcome) (call.closing patience))
        { tl with world := v, announced := n } := by
  rw [looping_succ]
  exact Activity.advance_outright (fun _ _ => rfl) hquiet ((outright_protect _ _).trans hx)

/-- After an attempt that has succeeded at once the operation is about to end. -/
theorem advance_looping_ok {r : Option Handle} (hquiet : ∀ t, tl.isCancelled t = false)
    (hr : outright (recording patience) tl.clock (call.attempt patience began) tl.world = some (.ok r, v)) :
    ∃ n, advance (recording patience) (call.looping patience began (fuel + 1)) tl =
      advance (recording patience) (call.closing patience (.ok r)) { tl with world := v, announced := n } :=
  advance_looping fuel hquiet hr

/-- After an attempt that has failed at once the operation pauses. -/
theorem advance_looping_error {e : Error} (hquiet : ∀ t, tl.isCancelled t = false)
    (he : outright (recording patience) tl.clock (call.attempt patience began) tl.world = some (.error e, v)) :
    ∃ n, advance (recording patience) (call.looping patience began (fuel + 1)) tl =
      (call.pausing patience began (tl.clock + 100) fuel, { tl with world := v, announced := n }) := by
  obtain ⟨n, hn⟩ := advance_looping fuel hquiet he
  refine ⟨n, hn.trans ?_⟩
  generalize hafter : ({ tl with world := v, announced := n } :
    Timeline side.signature (recording patience).World) = after
  have hclock : after.clock = tl.clock := by rw [← hafter]
  have htoken : after.isCancelled 1 = false := by
    rw [← hafter]
    exact hquiet 1
  rw [← hclock]
  have hlater : after.clock < after.clock + 100 := Nat.lt_add_of_pos_right (by decide)
  exact (Activity.advance_isCancelled htoken).trans
    ((Activity.advance_isCancelled htoken).trans (Activity.advance_asleep hlater))

/-- A pause ends when its time has come. -/
theorem resume_pausing {wake : Nat} (hquiet : tl.isCancelled 1 = false) (hwake : wake ≤ tl.clock) :
    resume (recording patience) (call.pausing patience began wake fuel) tl =
      advance (recording patience) (call.looping patience began fuel) tl := by
  rw [Timeline.resume_eq]
  have hstays : Timeline.onward tl (call.pausing patience began wake fuel) =
      call.pausing patience began wake fuel :=
    Timeline.onward_of_find_none (by simp [List.find?, hquiet])
  rw [hstays]
  exact Activity.advance_woken hwake

/-- The deadline ends a pause, and the operation with it. -/
theorem resume_pausing_expired {wake : Nat} (hcancelled : tl.isCancelled 1 = true)
    (hexpired : tl.isCancelled 2 = true) :
    resume (recording patience) (call.pausing patience began wake fuel) tl =
      advance (recording patience) (call.closing patience
        (.error (.timeout ("Timed out after waiting " ++ toString call.timeout ++ "ms")))) tl := by
  rw [Timeline.resume_eq]
  have hstopped : Timeline.onward tl (call.pausing patience began wake fuel) = _ :=
    Timeline.onward_interrupted (t := 1) (by simp [List.find?, hcancelled])
  rw [hstopped]
  exact Activity.advance_isCancelled hexpired

variable (call tl began) in
/-- A pause can end when its time has come or the operation is cancelled. -/
theorem canResume_pausing (wake : Nat) :
    tl.canResume (call.pausing patience began wake fuel) = (tl.isCancelled 1 || decide (wake ≤ tl.clock)) := by
  have hpausing : tl.canResume (call.pausing patience began wake fuel) =
      ([1].any tl.isCancelled || decide (wake ≤ tl.clock)) := rfl
  rw [hpausing, List.any_cons, List.any_nil, Bool.or_false]

end Looping

end Call

/-! ### Changes in the background -/

/-- The turn of a change that waits under a number. -/
def Timed.turn (patience clock : Nat) (x : Timed × Nat) : Turn (recording patience) where
  id := x.2
  before := x.1.activity
  deed w := if x.1.time ≤ clock then (x.1.change.apply w.1, w.2 ++ [⟨w.1, .change x.1.change⟩]) else w
  after := if x.1.time ≤ clock then .done () else x.1.activity

section Turn

variable {clock : Nat} {x : Timed × Nat}

theorem Timed.turn_due (h : x.1.time ≤ clock) :
    (∀ w, (Timed.turn patience clock x).deed w = (x.1.change.apply w.1, w.2 ++ [⟨w.1, .change x.1.change⟩])) ∧
      (Timed.turn patience clock x).after = .done () :=
  ⟨fun _ => if_pos h, if_pos h⟩

theorem Timed.turn_early (h : ¬ x.1.time ≤ clock) :
    (∀ w, (Timed.turn patience clock x).deed w = w) ∧ (Timed.turn patience clock x).after = x.1.activity :=
  ⟨fun _ => if_neg h, if_neg h⟩

theorem Timed.taken (clock : Nat) (tokens : Tokens) (x : Timed × Nat) :
    (Timed.turn patience clock x).Taken clock tokens := by
  rintro tl rfl -
  have hresume : resume (recording patience) x.1.activity tl = advance (recording patience) x.1.activity tl :=
    Activity.resume_of_watched_nil rfl
  refine hresume.trans ?_
  by_cases htime : x.1.time ≤ tl.clock
  · rw [(Timed.turn_due htime).1, (Timed.turn_due htime).2]
    exact Activity.advance_woken htime
  · rw [(Timed.turn_early htime).1, (Timed.turn_early htime).2]
    exact Activity.advance_asleep (Nat.lt_of_not_le htime)

end Turn

/-- A change that waits under a number. -/
def Timed.task (x : Timed × Nat) : Task side.signature := ⟨x.2, x.1.activity⟩

theorem Timed.left (clock : Nat) (changes : List (Timed × Nat)) :
    (changes.map (Timed.turn patience clock)).flatMap Turn.left =
      (changes.filter (clock < ·.1.time)).map Timed.task := by
  induction changes with
  | nil => rfl
  | cons x rest ih =>
    rw [List.map_cons, List.flatMap_cons, ih]
    by_cases htime : x.1.time ≤ clock
    · have hleft : (Timed.turn patience clock x).left = [] := by
        rw [Turn.left, (Timed.turn_due htime).2]
      rw [hleft, List.filter_cons_of_neg (by simpa using htime)]
      rfl
    · have hleft : (Timed.turn patience clock x).left = [Timed.task x] := by
        rw [Turn.left, (Timed.turn_early htime).2]
        rfl
      rw [hleft, List.filter_cons_of_pos (by simpa using htime)]
      rfl

/-- What is due happens to the page, and no attempt begins. -/
theorem Timed.deeds (clock : Nat) (changes : List (Timed × Nat)) (w : (recording patience).World) :
    ((changes.map (Timed.turn patience clock)).foldl (fun w turn => turn.deed w) w).1 =
        Page.after w.1 ((changes.map (·.1)).filter (·.time ≤ clock)) ∧
      begun ((changes.map (Timed.turn patience clock)).foldl (fun w turn => turn.deed w) w).2 = begun w.2 := by
  induction changes generalizing w with
  | nil => exact ⟨rfl, rfl⟩
  | cons x rest ih =>
    obtain ⟨hpage, hbegun⟩ := ih ((Timed.turn patience clock x).deed w)
    rw [List.map_cons, List.foldl_cons, List.map_cons]
    by_cases htime : x.1.time ≤ clock
    · rw [(Timed.turn_due htime).1] at hpage hbegun ⊢
      rw [List.filter_cons_of_pos (by simpa using htime)]
      exact ⟨hpage, hbegun.trans (begun_concat w.2 ⟨w.1, .change x.1.change⟩)⟩
    · rw [(Timed.turn_early htime).1] at hpage hbegun ⊢
      rw [List.filter_cons_of_neg (by simpa using htime)]
      exact ⟨hpage, hbegun⟩

/-! ### The deadline in the background -/

namespace Call

variable (call : Call)

/-- The deadline, while it is waited for. -/
def alarm (began : Nat) : side.Task Unit := do
  let reached ← Activity.guard 3 (return false) (Activity.guard 1 (return false) do
    let () ← Activity.perform (.sleepUntil (began + call.timeout))
    return true)
  if reached then
    let () ← Activity.perform (.cancel 2)
    Activity.perform (.cancel 1)

variable {call} {tl : Timeline side.signature (recording patience).World} {began : Nat}

/-- A job waits for the deadline of a call that has one. -/
theorem expire_eq (hlimited : call.timeout ≠ 0) :
    (call.interrupt began).expire (B := side) 3 = (do
      let reached ← Activity.unlessCancelled 3 (return false) (Activity.unlessCancelled 1 (return false) do
        let () ← Activity.perform (.sleepUntil (began + call.timeout))
        return true)
      if reached then
        let () ← Activity.perform (.cancel 2)
        Activity.perform (.cancel 1)) := by
  unfold Interrupt.expire interrupt
  simp only [if_neg hlimited]

/-- The deadline is set. -/
theorem resume_expire (hlimited : call.timeout ≠ 0) (hquiet : ∀ t, tl.isCancelled t = false)
    (hearly : tl.clock < began + call.timeout) :
    resume (recording patience) ((call.interrupt began).expire 3) tl = (call.alarm began, tl) := by
  rw [expire_eq hlimited, Activity.resume_of_watched_nil rfl]
  exact (Activity.advance_isCancelled (hquiet 3)).trans
    ((Activity.advance_isCancelled (hquiet 1)).trans (Activity.advance_asleep hearly))

/-- An operation that has ended needs no deadline any more. -/
theorem resume_expire_ended (hlimited : call.timeout ≠ 0) (hended : tl.isCancelled 3 = true) :
    resume (recording patience) ((call.interrupt began).expire 3) tl = (.done (), tl) := by
  rw [expire_eq hlimited, Activity.resume_of_watched_nil rfl]
  exact Activity.advance_isCancelled hended

theorem resume_alarm_ended (hended : tl.isCancelled 3 = true) :
    resume (recording patience) (call.alarm began) tl = (.done (), tl) := by
  rw [Timeline.resume_eq]
  have hstopped : Timeline.onward tl (call.alarm began) = _ :=
    Timeline.onward_interrupted (t := 3) (by simp [List.find?, hended])
  rw [hstopped]
  rfl

/-- At the deadline the operation is cancelled. -/
theorem resume_alarm (hquiet : ∀ t, tl.isCancelled t = false) (hreached : began + call.timeout ≤ tl.clock) :
    resume (recording patience) (call.alarm began) tl = (.done (), (tl.cancel 2).cancel 1) := by
  rw [Timeline.resume_eq]
  have hstays : Timeline.onward tl (call.alarm began) = call.alarm began :=
    Timeline.onward_of_find_none (by simp [List.find?, hquiet])
  rw [hstays]
  exact Activity.advance_woken hreached

end Call

/-! ### Pauses -/

namespace Forecast

variable (c : Forecast) (call : Call)

/-- The changes that wait at a time. -/
def pending (now : Nat) : List (Timed × Nat) := c.changes.zipIdx.filter (now < ·.1.time)

/-- The deadline that waits. -/
def alarms : List (Task side.signature) :=
  if call.timeout = 0 then [] else [⟨c.changes.length, call.alarm c.clock⟩]

variable {c call}

theorem number_lt {x : Timed × Nat} (hx : x ∈ c.changes.zipIdx) : x.2 < c.changes.length := by
  obtain ⟨change, number⟩ := x
  have hnumber := List.snd_lt_of_mem_zipIdx hx
  simpa using hnumber

theorem nodup_numbers : (c.changes.zipIdx.map (·.2)).Nodup := by
  rw [List.zipIdx_map_snd]
  exact List.nodup_range'

/-- The deadline has a number of its own. -/
theorem nodup_tasks {changes : List (Timed × Nat)} {rest : List (Task side.signature)}
    (hchanges : changes.Sublist c.changes.zipIdx) (hrest : (rest.map (·.id)).Sublist [c.changes.length]) :
    ((changes.map Timed.task ++ rest).map (·.id)).Nodup := by
  rw [List.map_append, List.map_map]
  refine List.nodup_append.mpr ⟨nodup_numbers.sublist (hchanges.map _),
    (List.nodup_singleton _).sublist hrest, ?_⟩
  rintro number hnumber _ hlast rfl
  obtain ⟨x, hx, rfl⟩ := List.mem_map.mp hnumber
  exact absurd (List.mem_singleton.mp (hrest.subset hlast)) (Nat.ne_of_lt (number_lt (hchanges.subset hx)))

theorem alarms_number : ((c.alarms call).map (·.id)).Sublist [c.changes.length] := by
  unfold alarms
  split
  · exact List.nil_sublist _
  · exact List.Sublist.refl _

/-- The changes that come due at a time. -/
theorem pending_due {now time : Nat} (hlater : now ≤ time) :
    ((c.pending now).filter (time < ·.1.time)) = c.pending time := by
  unfold pending
  rw [List.filter_filter]
  refine List.filter_congr fun x _ => ?_
  simp only [Bool.and_eq_decide, decide_eq_true_eq, decide_eq_decide]
  omega

/-- What is left when those that are due at a time have had their turns. -/
theorem tasks_left {now time : Nat} (hlater : now ≤ time) :
    ((c.pending now).map Timed.task ++ c.alarms call).filter (fun task =>
      !((((c.pending now).filter (·.1.time ≤ time)).map (Timed.turn patience time)).map (·.id)).contains task.id) =
      (c.pending time).map Timed.task ++ c.alarms call := by
  have hmem (number : Nat) : (((((c.pending now).filter (·.1.time ≤ time)).map
      (Timed.turn patience time)).map (·.id)).contains number = true ↔
        ∃ x ∈ c.pending now, x.1.time ≤ time ∧ x.2 = number) := by
    rw [List.map_map, List.contains_iff_mem, List.mem_map]
    constructor
    · rintro ⟨x, hx, rfl⟩
      exact ⟨x, List.mem_of_mem_filter hx, by simpa using (List.mem_filter.mp hx).2, rfl⟩
    · rintro ⟨x, hx, htime, rfl⟩
      exact ⟨x, List.mem_filter.mpr ⟨hx, by simpa using htime⟩, rfl⟩
  rw [List.filter_append, List.filter_map, ← pending_due hlater]
  congr 1
  · refine congrArg (List.map Timed.task) (List.filter_congr fun x hx => ?_)
    rw [Bool.eq_iff_iff, Function.comp_apply, Bool.not_eq_true', ← Bool.not_eq_true, hmem, decide_eq_true_eq]
    constructor
    · intro hnot
      exact Nat.lt_of_not_le fun htime => hnot ⟨x, hx, htime, rfl⟩
    · rintro hearly ⟨y, hy, htime, hsame⟩
      obtain rfl := List.inj_on_of_nodup_map nodup_numbers (List.mem_of_mem_filter hy)
        (List.mem_of_mem_filter hx) hsame
      exact absurd htime (Nat.not_le_of_lt hearly)
  · refine List.filter_eq_self.mpr fun task htask => ?_
    rw [Bool.not_eq_true', ← Bool.not_eq_true, hmem]
    rintro ⟨x, hx, -, hsame⟩
    unfold alarms at htask
    split at htask
    · exact absurd htask List.not_mem_nil
    · rw [List.mem_singleton.mp htask] at hsame
      exact absurd hsame (Nat.ne_of_lt (number_lt (List.mem_of_mem_filter hx)))

/-- Who is woken at a time. -/
theorem woken (now time : Nat) :
    (((c.pending now).map Timed.task ++ c.alarms call).filter fun task =>
      (wakeTime task.activity).any (· ≤ time)).map (·.id) =
      (((c.pending now).filter (·.1.time ≤ time)).map (Timed.turn patience time)).map (·.id) ++
        if call.timeout = 0 ∨ time < c.clock + call.timeout then [] else [c.changes.length] := by
  rw [List.filter_append, List.map_append, List.filter_map, List.map_map, List.map_map]
  congr 1
  · have hwake : wakeTime (call.alarm c.clock) = some (c.clock + call.timeout) := rfl
    unfold alarms
    by_cases hzero : call.timeout = 0
    · simp [hzero]
    · by_cases hdue : time < c.clock + call.timeout
      · simp [hzero, hwake, hdue]
      · simp [hzero, hwake, hdue, Nat.le_of_not_lt hdue]

end Forecast

/-- An operation pauses after the attempt with a number, and it is such a time. -/
structure Pauses (c : Forecast) (call : Call) (patience fuel number now : Nat)
    (run : Run side.signature (recording patience).World (Except Error (Option Handle))) : Prop where
  main : run.main = call.pausing patience c.clock (c.clock + 100 * (number + 1)) fuel
  limit : run.limit = none
  clock : run.timeline.clock = now
  since : c.clock + 100 * number ≤ now
  page : run.timeline.world.1 = c.lapse (c.restAfter patience call number (c.pageAt patience call number))
    (c.clock + 100 * number) (now - (c.clock + 100 * number))
  attempts : begun run.timeline.world.2 = number + 1
  tokens : run.timeline.tokens = call.tokens
  ready : run.timeline.ready = []
  tasks : run.timeline.tasks = (c.pending now).map Timed.task ++ c.alarms call

/-- The deadline of an operation has come in the pause after the attempt with a number. -/
structure Expired (c : Forecast) (call : Call) (patience fuel number : Nat)
    (run : Run side.signature (recording patience).World (Except Error (Option Handle))) : Prop where
  main : run.main = call.pausing patience c.clock (c.clock + 100 * (number + 1)) fuel
  limit : run.limit = none
  clock : run.timeline.clock = c.clock + call.timeout
  attempts : begun run.timeline.world.2 = number + 1
  cancelled : run.timeline.isCancelled 1 = true
  expired : run.timeline.isCancelled 2 = true
  ready : run.timeline.ready = []
  tasks : ∀ task ∈ run.timeline.tasks, Timeline.watched task.activity = []

section Pauses

variable {c : Forecast} {call : Call} {fuel number now : Nat}
  {run : Run side.signature (recording patience).World (Except Error (Option Handle))}

theorem Call.quiet {tl : Timeline side.signature (recording patience).World} (h : tl.tokens = call.tokens)
    (t : Token) : tl.isCancelled t = false := by
  rw [Timeline.isCancelled, h, Call.tokens]
  by_cases hzero : call.timeout = 0
  · rw [if_pos hzero]
    rcases t with _ | _ | _ | t <;> rfl
  · rw [if_neg hzero]
    rcases t with _ | _ | _ | _ | t <;> rfl

/-- The clock moves on. -/
theorem Pauses.moves (h : Pauses c call patience fuel number now run)
    (hwake : now < c.clock + 100 * (number + 1)) (hlimit : call.timeout = 0 ∨ now < c.clock + call.timeout) :
    ∃ time, run.step (recording patience) = some { run with timeline := run.timeline.moveClock time } ∧
      now < time ∧ time ≤ c.clock + 100 * (number + 1) ∧
      (call.timeout = 0 ∨ time ≤ c.clock + call.timeout) ∧
      ∀ t ∈ c.changes, t.time ≤ now ∨ time ≤ t.time := by
  have hmain : wakeTime run.main = some (c.clock + 100 * (number + 1)) := by rw [h.main]; rfl
  have hstuck : run.timeline.canResume run.main = false := by
    rw [h.main, Call.canResume_pausing, Call.quiet h.tokens, h.clock]
    simpa using hwake
  obtain ⟨time, hstep, hbefore, hleast, hsome⟩ :=
    Run.step_of_waits (B := recording patience) h.ready hmain hstuck h.limit
  rw [h.tasks] at hleast hsome
  have hchange (t : Timed) (ht : t ∈ c.changes) : t.time ≤ now ∨ time ≤ t.time := by
    refine (Nat.lt_or_ge now t.time).symm.imp_right fun hlater => ?_
    obtain ⟨i, hi⟩ := List.mem_iff_getElem?.mp ht
    have hmem : (t, i) ∈ c.pending now :=
      List.mem_filter.mpr ⟨List.mk_mem_zipIdx_iff_getElem?.mpr hi, by simpa using hlater⟩
    exact hleast _ (List.mem_append_left _ (List.mem_map_of_mem hmem)) t.time rfl
  have halarm : call.timeout = 0 ∨ time ≤ c.clock + call.timeout := by
    refine (Nat.eq_zero_or_pos call.timeout).imp_right fun hpos => ?_
    refine hleast ⟨c.changes.length, call.alarm c.clock⟩ (List.mem_append_right _ ?_) _ rfl
    rw [Forecast.alarms, if_neg (Nat.ne_of_gt hpos)]
    exact List.mem_singleton_self _
  refine ⟨time, hstep, ?_, hbefore, halarm, hchange⟩
  rcases hsome with hsame | ⟨task, htask, htime⟩
  · exact hsame ▸ hwake
  · rcases List.mem_append.mp htask with htask | htask
    · obtain ⟨x, hx, rfl⟩ := List.mem_map.mp htask
      have hlater : now < x.1.time := by simpa using (List.mem_filter.mp hx).2
      exact Option.some.inj htime ▸ hlater
    · unfold Forecast.alarms at htask
      split at htask
      · exact absurd htask List.not_mem_nil
      · rename_i hlimited
        rw [List.mem_singleton.mp htask] at htime
        exact Option.some.inj htime ▸ hlimit.resolve_left hlimited

/-- What is due has happened, and nobody but the deadline can go on. -/
theorem Pauses.turns (h : Pauses c call patience fuel number now run) {time : Nat} (hlater : now < time)
    (hnext : ∀ t ∈ c.changes, t.time ≤ now ∨ time ≤ t.time) :
    ∃ turns tl, Run.finish (recording patience) turns { run with timeline := run.timeline.moveClock time } =
        { run with timeline := tl } ∧
      tl.clock = time ∧ tl.tokens = call.tokens ∧ begun tl.world.2 = number + 1 ∧
      tl.world.1 = c.lapse (c.restAfter patience call number (c.pageAt patience call number))
        (c.clock + 100 * number) (time - (c.clock + 100 * number)) ∧
      tl.tasks = (c.pending time).map Timed.task ++ c.alarms call ∧
      tl.ready = if call.timeout = 0 ∨ time < c.clock + call.timeout then [] else [c.changes.length] := by
  let due := (c.pending now).filter (·.1.time ≤ time)
  have hids : (run.timeline.tasks.map (·.id)).Nodup := by
    rw [h.tasks]
    exact Forecast.nodup_tasks List.filter_sublist Forecast.alarms_number
  have hready : (run.timeline.moveClock time).ready = (due.map (Timed.turn patience time)).map (·.id) ++
      if call.timeout = 0 ∨ time < c.clock + call.timeout then [] else [c.changes.length] := by
    rw [Timeline.ready_moveClock h.ready hids, h.tasks]
    exact Forecast.woken now time
  have hturns : ((due.map (Timed.turn patience time)).map Turn.task).Sublist run.timeline.tasks := by
    rw [h.tasks, List.map_map]
    exact (List.filter_sublist.map _).trans (List.sublist_append_left _ _)
  have hfinish := Run.finish_turns _ { run with timeline := run.timeline.moveClock time } hready hids hturns (by
    intro turn hturn
    obtain ⟨x, -, rfl⟩ := List.mem_map.mp hturn
    exact Timed.taken time _ x)
  refine ⟨_, _, hfinish, rfl, h.tokens, ?_, ?_, ?_, rfl⟩
  · exact (Timed.deeds time due _).2.trans h.attempts
  · have hdue : (due.map (·.1)).filter (·.time ≤ time) = c.changes.filter (·.time = time) := by
      have hfst : (c.changes.zipIdx.map (·.1)) = c.changes := List.zipIdx_map_fst 0 c.changes
      rw [← hfst, List.filter_map, List.filter_map, List.filter_filter, Forecast.pending, List.filter_filter]
      refine congrArg (List.map _) (List.filter_congr fun x hx => ?_)
      have := hnext x.1 (List.fst_mem_of_mem_zipIdx hx)
      simp only [Function.comp_apply, Bool.and_eq_decide, decide_eq_true_eq, decide_eq_decide]
      omega
    have hsplit : time - (c.clock + 100 * number) = now - (c.clock + 100 * number) + (time - now) := by
      have := h.since
      omega
    have hnow : c.clock + 100 * number + (now - (c.clock + 100 * number)) = now := Nat.add_sub_cancel' h.since
    rw [hsplit, lapse_add, hnow, lapse_next hlater hnext, ← h.page]
    exact (Timed.deeds time due _).1.trans (congrArg _ hdue)
  · have hnone : due.filter (time < ·.1.time) = [] := by
      refine List.filter_eq_nil_iff.mpr fun x hx => ?_
      have hdue : x.1.time ≤ time := by simpa using (List.mem_filter.mp hx).2
      simpa using hdue
    have htasks : run.timeline.tasks.filter (fun task =>
        !((due.map (Timed.turn patience time)).map (·.id)).contains task.id) =
        (c.pending time).map Timed.task ++ c.alarms call := by
      rw [h.tasks]
      exact Forecast.tasks_left (Nat.le_of_lt hlater)
    refine (congrArg₂ (· ++ ·) htasks (Timed.left time due)).trans ?_
    rw [hnone]
    exact List.append_nil _

/-- The turn of the deadline cancels the operation. -/
theorem runTask_alarm (tl : Timeline side.signature (recording patience).World) {time : Nat}
    (hlimited : call.timeout ≠ 0) (htokens : tl.tokens = call.tokens) (hready : tl.ready = [])
    (htasks : tl.tasks = (c.pending time).map Timed.task ++ c.alarms call)
    (hreached : c.clock + call.timeout ≤ tl.clock) :
    ∃ after, Timeline.runTask (recording patience) tl c.changes.length = after ∧ after.world = tl.world ∧
      after.clock = tl.clock ∧ after.isCancelled 1 = true ∧ after.isCancelled 2 = true ∧ after.ready = [] ∧
      ∀ task ∈ after.tasks, Timeline.watched task.activity = [] := by
  have halarms : c.alarms call = [⟨c.changes.length, call.alarm c.clock⟩] := if_neg hlimited
  have hothers (task : Task side.signature) (htask : task ∈ (c.pending time).map Timed.task) :
      task.id ≠ c.changes.length ∧ Timeline.watched task.activity = [] := by
    obtain ⟨x, hx, rfl⟩ := List.mem_map.mp htask
    exact ⟨Nat.ne_of_lt (Forecast.number_lt (List.mem_of_mem_filter hx)), rfl⟩
  have hfind : tl.tasks.find? (fun t => t.id == c.changes.length) =
      some ⟨c.changes.length, call.alarm c.clock⟩ := by
    have hnone : ((c.pending time).map Timed.task).find? (fun t => t.id == c.changes.length) = none :=
      List.find?_eq_none.mpr fun task htask => by simpa using (hothers task htask).1
    rw [htasks, halarms, List.find?_append, hnone]
    simp
  let alone : Timeline side.signature (recording patience).World :=
    { tl with tasks := tl.tasks.filter (·.id != c.changes.length) }
  have hunwatched : ∀ task ∈ alone.tasks, Timeline.watched task.activity = [] := by
    intro task htask
    obtain ⟨hmem, hid⟩ := List.mem_filter.mp htask
    rw [htasks, halarms] at hmem
    rcases List.mem_append.mp hmem with hmem | hmem
    · exact (hothers task hmem).2
    · rw [List.mem_singleton.mp hmem] at hid
      exact absurd hid (by simp)
  have hquiet (t : Token) : alone.isCancelled t = false := Call.quiet htokens t
  have hresume := Call.resume_alarm hquiet hreached
  have hturn : Timeline.runTask (recording patience) tl c.changes.length = (alone.cancel 2).cancel 1 :=
    (Activity.runTask_of_find hfind (hresume : resume (recording patience) _ alone = _)).1 rfl
  have hfirst := Timeline.cancel_sameBut alone 2
  have hsecond := Timeline.cancel_sameBut (alone.cancel 2) 1
  have hcount : 2 < alone.tokens.count := by
    show 2 < tl.tokens.states.size
    rw [htokens, Call.tokens]
    simp only [Array.size_append, List.size_toArray, List.length_cons, List.length_nil]
    omega
  have htold : (alone.cancel 2).isCancelled 2 = true := Timeline.isCancelled_cancel_made hcount
  refine ⟨_, hturn, hsecond.world.trans hfirst.world, hsecond.clock.trans hfirst.clock, ?_,
    Timeline.isCancelled_cancel_of htold, ?_, ?_⟩
  · refine Timeline.isCancelled_cancel_made ?_
    rw [Timeline.count_cancel]
    exact Nat.lt_trans (by decide) hcount
  · rw [Timeline.ready_cancel (hfirst.tasks ▸ hunwatched), Timeline.ready_cancel hunwatched]
    exact hready
  · rw [hsecond.tasks, hfirst.tasks]
    exact hunwatched

/-- The operation pauses until its time has come, if its deadline comes later. -/
theorem Pauses.wakes (h : Pauses c call patience fuel number now run)
    (hnow : now ≤ c.clock + 100 * (number + 1))
    (hlimit : call.timeout = 0 ∨ c.clock + 100 * (number + 1) < c.clock + call.timeout) :
    ∃ turns, Pauses c call patience fuel number (c.clock + 100 * (number + 1))
      (run.finish (recording patience) turns) := by
  induction hleft : c.clock + 100 * (number + 1) - now using Nat.strong_induction_on generalizing now run with
  | _ left ih =>
    rcases Nat.lt_or_ge now (c.clock + 100 * (number + 1)) with hwake | hwake
    · obtain ⟨time, hstep, hlater, htime, -, hnext⟩ := h.moves hwake (hlimit.imp_right (Nat.lt_trans hwake))
      obtain ⟨turns, tl, hfinish, hclock, htokens, hattempts, hpage, htasks, hready⟩ := h.turns hlater hnext
      have hpauses : Pauses c call patience fuel number time { run with timeline := tl } :=
        ⟨h.main, h.limit, hclock, Nat.le_trans h.since (Nat.le_of_lt hlater), hpage, hattempts, htokens,
          hready.trans (if_pos (hlimit.imp_right (Nat.lt_of_le_of_lt htime))), htasks⟩
      obtain ⟨more, hlast⟩ := ih _ (by omega) hpauses htime rfl
      refine ⟨turns + more + 1, ?_⟩
      rw [Run.finish_of_step hstep, Run.finish_add, hfinish]
      exact hlast
    · obtain rfl := Nat.le_antisymm hnow hwake
      exact ⟨0, h⟩

/-- The deadline cancels the operation while it pauses. -/
theorem Pauses.expires (h : Pauses c call patience fuel number now run) (hlimited : call.timeout ≠ 0)
    (hnow : now < c.clock + call.timeout) (hlimit : c.clock + call.timeout < c.clock + 100 * (number + 1)) :
    ∃ turns, Expired c call patience fuel number (run.finish (recording patience) turns) := by
  induction hleft : c.clock + call.timeout - now using Nat.strong_induction_on generalizing now run with
  | _ left ih =>
    obtain ⟨time, hstep, hlater, -, htime, hnext⟩ := h.moves (Nat.lt_trans hnow hlimit) (.inr hnow)
    obtain ⟨turns, tl, hfinish, hclock, htokens, hattempts, hpage, htasks, hready⟩ := h.turns hlater hnext
    rcases Nat.lt_or_ge time (c.clock + call.timeout) with hearly | hdue
    · have hpauses : Pauses c call patience fuel number time { run with timeline := tl } :=
        ⟨h.main, h.limit, hclock, Nat.le_trans h.since (Nat.le_of_lt hlater), hpage, hattempts, htokens,
          hready.trans (if_pos (.inr hearly)), htasks⟩
      obtain ⟨more, hlast⟩ := ih _ (by omega) hpauses hearly rfl
      refine ⟨turns + more + 1, ?_⟩
      rw [Run.finish_of_step hstep, Run.finish_add, hfinish]
      exact hlast
    · -- the deadline is the last of those that are woken
      obtain rfl : time = c.clock + call.timeout := Nat.le_antisymm (htime.resolve_left hlimited) hdue
      rw [if_neg (by simp [hlimited])] at hready
      obtain ⟨after, hturn, hworld, hafter, hcancelled, hexpired, hqueue, hunwatched⟩ :=
        runTask_alarm { tl with ready := [] } hlimited htokens rfl htasks (Nat.le_of_eq hclock.symm)
      let woken : Run side.signature (recording patience).World (Except Error (Option Handle)) :=
        { run with timeline := tl }
      have hlast : woken.step (recording patience) = some { run with timeline := after } :=
        (Run.step_of_ready hready).trans (congrArg (fun tl => some { run with timeline := tl }) hturn)
      refine ⟨turns + 1 + 1, ?_⟩
      rw [Run.finish_of_step hstep, Run.finish_add, hfinish, Run.finish_of_step hlast]
      exact ⟨h.main, h.limit, hafter.trans hclock, (congrArg (fun w => begun w.2) hworld).trans hattempts,
        hcancelled, hexpired, hqueue, hunwatched⟩

end Pauses

end Wayfind.Simulation
