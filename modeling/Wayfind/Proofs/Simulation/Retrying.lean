/-
When attempts begin, and when the operation ends.

Attempts that take no time begin every hundred milliseconds, up to the first that succeeds
or to the deadline.  `Attempts` says what holds when one of them is about to be made; from
one to the next lies a pause, and so each is reached from the first (`reaches`).
-/
import Wayfind.Proofs.Simulation.Pausing

namespace Wayfind.Simulation

open Activity (Task Timeline Run Turn outright)
open Activity.Timeline (advance resume)

variable {patience : Nat} {α : Type}

/-! ### The beginning -/

/-- An operation has just been started: every change waits for its first turn, and the deadline is yet
to be set. -/
structure Fresh (c : Forecast) (call : Call) (tl : Timeline side.signature (recording patience).World) : Prop where
  clock : tl.clock = c.clock
  tasks : tl.tasks = c.changes.zipIdx.map Timed.task ++
    if call.timeout = 0 then [] else [⟨c.changes.length, (call.interrupt c.clock).expire 3⟩]
  ready : tl.ready = c.changes.zipIdx.map (·.2) ++ if call.timeout = 0 then [] else [c.changes.length]

/-- A turn in which somebody does nothing but go on like this. -/
def idling (patience number : Nat) (before after : side.Task Unit) : Turn (recording patience) :=
  ⟨number, before, id, after⟩

section Start

variable {c : Forecast} {call : Call} {tl : Timeline side.signature (recording patience).World}
  {run : Run side.signature (recording patience).World (Except Error (Option Handle))} {fuel : Nat}

theorem recorded_forecast (c : Forecast) : c.scene.recorded patience =
    { Timeline.init (c.page, []) with
      clock := c.clock
      tokens := ⟨#[⟨[], false⟩]⟩
      tasks := c.changes.zipIdx.map Timed.task
      ready := c.changes.zipIdx.map (·.2)
      nextTask := c.changes.length } := by
  let chore : Timed → side.signature.Job := Job.chore
  let jobs : List side.signature.Job := c.changes.map chore
  have hjobs : c.scene.events.map Event.job = jobs := List.map_map
  have hnumbered : jobs.zipIdx = c.changes.zipIdx.map (Prod.map chore id) := List.zipIdx_map ..
  have htasks : jobs.zipIdx.map (fun x => (⟨x.2, (backend patience).start x.1⟩ : Task side.signature)) =
      c.changes.zipIdx.map Timed.task := by
    rw [hnumbered, List.map_map]
    rfl
  have hready : jobs.zipIdx.map (·.2) = c.changes.zipIdx.map (·.2) := by
    rw [hnumbered, List.map_map]
    rfl
  have hlength : 0 + jobs.length = c.changes.length := by
    rw [Nat.zero_add]
    exact List.length_map _
  have hfork : c.scene.timeline patience = _ := (congrArg (c.scene.stage.forkAll (backend patience)) hjobs).trans
    (Timeline.forkAll_eq jobs c.scene.stage)
  rw [Scene.recorded, hfork, ← htasks, ← hready, ← hlength]
  rfl

theorem fresh_opened (patience : Nat) (c : Forecast) (call : Call) :
    Fresh c call (call.opened (c.scene.recorded patience)) ∧
    (call.opened (c.scene.recorded patience)).tokens = call.tokens ∧
    (call.opened (c.scene.recorded patience)).world = (c.page, []) := by
  rw [recorded_forecast]
  unfold Call.opened Call.launched
  by_cases hzero : call.timeout = 0
  · rw [if_pos hzero]
    exact ⟨⟨rfl, by simp [hzero], by simp [hzero]⟩, rfl, rfl⟩
  · rw [if_neg hzero]
    refine ⟨⟨rfl, ?_, ?_⟩, rfl, rfl⟩
    · rw [if_neg hzero]
      rfl
    · rw [if_neg hzero]
      rfl

/-- What waits for its first turn has it. -/
theorem Fresh.turns (after : side.Task Unit) (h : Fresh c call run.timeline)
    (hset : call.timeout ≠ 0 → (idling patience c.changes.length
      ((call.interrupt c.clock).expire 3) after).Taken run.timeline.clock run.timeline.tokens) :
    ∃ turns tl, run.finish (recording patience) turns = { run with timeline := tl } ∧ tl.clock = c.clock ∧
      tl.tokens = run.timeline.tokens ∧ tl.ready = [] ∧ tl.world.1 = c.overdue run.timeline.world.1 ∧
      begun tl.world.2 = begun run.timeline.world.2 ∧
      tl.tasks = (c.pending c.clock).map Timed.task ++ if call.timeout = 0 then []
        else (idling patience c.changes.length ((call.interrupt c.clock).expire 3) after).left := by
  let last : List (Turn (recording patience)) := if call.timeout = 0 then []
    else [idling patience c.changes.length ((call.interrupt c.clock).expire 3) after]
  let turns := c.changes.zipIdx.map (Timed.turn patience c.clock) ++ last
  have hlast : last.map Turn.task = (if call.timeout = 0 then []
        else [⟨c.changes.length, (call.interrupt c.clock).expire 3⟩]) ∧
      last.map (·.id) = (if call.timeout = 0 then [] else [c.changes.length]) ∧
      last.flatMap Turn.left = (if call.timeout = 0 then []
        else (idling patience c.changes.length ((call.interrupt c.clock).expire 3) after).left) ∧
      ∀ w, last.foldl (fun w turn => turn.deed w) w = w := by
    unfold last
    split
    · exact ⟨rfl, rfl, rfl, fun _ => rfl⟩
    · exact ⟨rfl, rfl, List.flatMap_singleton .., fun _ => rfl⟩
  obtain ⟨htask, hnumber, hleft, hdeed⟩ := hlast
  have htasks : run.timeline.tasks = turns.map Turn.task := by
    rw [h.tasks, List.map_append, List.map_map, htask]
    rfl
  have hready : run.timeline.ready = turns.map (·.id) ++ [] := by
    rw [h.ready, List.append_nil, List.map_append, List.map_map, hnumber]
    rfl
  have hids : (run.timeline.tasks.map (·.id)).Nodup := by
    rw [h.tasks]
    refine Forecast.nodup_tasks (List.Sublist.refl _) ?_
    split
    · exact List.nil_sublist _
    · exact List.Sublist.refl _
  have hgone : run.timeline.tasks.filter (fun task => !(turns.map (·.id)).contains task.id) = [] := by
    refine List.filter_eq_nil_iff.mpr fun task hmem => ?_
    rw [htasks] at hmem
    obtain ⟨turn, hturn, rfl⟩ := List.mem_map.mp hmem
    simp only [Bool.not_eq_true, Bool.not_eq_false', List.contains_iff_mem]
    exact List.mem_map_of_mem hturn
  have hfinish := Run.finish_turns turns run hready hids (htasks ▸ List.Sublist.refl _) (by
    intro turn hturn
    rcases List.mem_append.mp hturn with hturn | hturn
    · obtain ⟨x, -, rfl⟩ := List.mem_map.mp hturn
      rw [h.clock]
      exact Timed.taken c.clock _ x
    · unfold last at hturn
      split at hturn
      · exact absurd hturn List.not_mem_nil
      · rename_i hlimited
        rw [List.mem_singleton.mp hturn]
        exact hset hlimited)
  have hdeeds := Timed.deeds c.clock c.changes.zipIdx run.timeline.world
  rw [List.zipIdx_map_fst] at hdeeds
  refine ⟨_, _, hfinish, h.clock, rfl, rfl, ?_, ?_, ?_⟩
  · rw [List.foldl_append, hdeed]
    exact hdeeds.1
  · rw [List.foldl_append, hdeed]
    exact hdeeds.2
  · rw [hgone, List.nil_append, List.flatMap_append, Timed.left, hleft]
    rfl

end Start

/-! ### The end -/

section End

variable {c : Forecast} {call : Call} {tl : Timeline side.signature (recording patience).World}
  {time : Nat} {a : Except Error (Option Handle)}

/-- The end of a call is told before its deadline comes. -/
theorem Call.tells (hlimited : call.timeout ≠ 0) (htokens : tl.tokens = call.tokens) :
    tl.cancel 3 = tl.cancelOne 3 ∧ (tl.cancel 3).isCancelled 3 = true := by
  refine ⟨Timeline.cancel_bare ?_, Timeline.isCancelled_cancel_made ?_⟩
  · rw [htokens, Call.tokens, if_neg hlimited]
    rcases call with ⟨l, t, _ | _⟩ <;> rfl
  · show 3 < tl.tokens.states.size
    rw [htokens, Call.tokens, if_neg hlimited]
    simp

/-- A successful operation tells its end and makes of what it has found what it is asked for. -/
theorem Call.advance_closing (tl : Timeline side.signature (recording patience).World) {r : Option Handle}
    (hr : call.terminal.operation = .find → tl.world.1.Holds r) :
    ∃ o w, advance (recording patience) (call.closing patience (.ok r)) tl =
      (.done o, { (if call.timeout = 0 then tl else tl.cancel 3) with world := w }) ∧
      begun w.2 = begun tl.world.2 ∧ (tl.world.1.Accepts call.terminal r → ∃ v, o = .ok v) := by
  unfold Call.closing
  split
  · exact advance_conclude tl hr
  · have hworld := (Timeline.cancel_sameBut tl 3).world
    rw [← hworld] at hr ⊢
    exact advance_conclude (tl.cancel 3) hr

/-- When an operation has ended whose deadline was waited for, the deadline goes. -/
theorem finish_asleep (tl : Timeline side.signature (recording patience).World) (hlimited : call.timeout ≠ 0)
    (htokens : tl.tokens = call.tokens) (hready : tl.ready = [])
    (htasks : tl.tasks = (c.pending time).map Timed.task ++ c.alarms call) (w : (recording patience).World) :
    ∃ after, Run.finish (recording patience) 1 ⟨.done a, { tl.cancel 3 with world := w }, none⟩ =
        ⟨.done a, after, none⟩ ∧ after.ready = [] ∧ after.clock = tl.clock ∧ after.world = w := by
  obtain ⟨halone, hended⟩ := Call.tells hlimited htokens
  have hsame := Timeline.cancel_sameBut tl 3
  have halarms : c.alarms call = [⟨c.changes.length, call.alarm c.clock⟩] := if_neg hlimited
  have hwoken : tl.tasksWhere (Timeline.watches 3) = [c.changes.length] := by
    have hnobody : ((c.pending time).map Timed.task).filter (fun task => Timeline.watches 3 task.activity) = [] := by
      refine List.filter_eq_nil_iff.mpr fun task htask => ?_
      obtain ⟨x, -, rfl⟩ := List.mem_map.mp htask
      exact Bool.false_ne_true
    rw [Timeline.tasksWhere, htasks, halarms, List.filter_append, hnobody]
    rfl
  have hready' : (tl.cancel 3).ready = [c.changes.length] := by
    have hnot : ¬ tl.isCancelled 3 = true := by rw [Call.quiet htokens 3]; exact Bool.false_ne_true
    have hnodup : (tl.tasksWhere (Timeline.watches 3)).Nodup := by
      rw [hwoken]
      exact List.nodup_singleton _
    rw [halone, Timeline.cancelOne, if_neg hnot]
    exact (Timeline.ready_wake hready hnodup).trans hwoken
  let turn := idling patience c.changes.length (call.alarm c.clock) (.done ())
  have hmem : turn.task ∈ (tl.cancel 3).tasks := by
    rw [hsame.tasks, htasks, halarms]
    exact List.mem_append_right _ (List.mem_singleton_self _)
  have hids : ((tl.cancel 3).tasks.map (·.id)).Nodup := by
    rw [hsame.tasks, htasks]
    exact Forecast.nodup_tasks List.filter_sublist Forecast.alarms_number
  let last : Run side.signature (recording patience).World (Except Error (Option Handle)) :=
    ⟨.done a, { tl.cancel 3 with world := w }, none⟩
  have hlast : last.timeline.ready = [turn].map (·.id) ++ [] := hready'
  have hfinish := Run.finish_turns [turn] last hlast hids (List.singleton_sublist.mpr hmem) (by
    rintro _ hturn tl' - htold
    rw [List.mem_singleton.mp hturn]
    refine Call.resume_alarm_ended ?_
    rw [Timeline.isCancelled, htold]
    exact hended)
  exact ⟨_, hfinish, rfl, hsame.clock, rfl⟩

/-- When an operation has ended at its first attempt, what was waiting for its first turn has it. -/
theorem finish_fresh (h : Fresh c call tl) (htokens : tl.tokens = call.tokens) (w : (recording patience).World) :
    ∃ turns after, Run.finish (recording patience) turns
        ⟨.done a, { (if call.timeout = 0 then tl else tl.cancel 3) with world := w }, none⟩ =
        ⟨.done a, after, none⟩ ∧
      after.ready = [] ∧ after.clock = tl.clock ∧ begun after.world.2 = begun w.2 := by
  let last : Run side.signature (recording patience).World (Except Error (Option Handle)) :=
    ⟨.done a, { (if call.timeout = 0 then tl else tl.cancel 3) with world := w }, none⟩
  have hsame : (if call.timeout = 0 then tl else tl.cancel 3).clock = tl.clock ∧
      (if call.timeout = 0 then tl else tl.cancel 3).tasks = tl.tasks ∧
      (if call.timeout = 0 then tl else tl.cancel 3).ready = tl.ready := by
    by_cases hlimited : call.timeout = 0
    · rw [if_pos hlimited]
      exact ⟨rfl, rfl, rfl⟩
    · have hsame := Timeline.cancel_sameBut tl 3
      rw [if_neg hlimited]
      refine ⟨hsame.clock, hsame.tasks, Timeline.ready_cancel (fun task htask => ?_) 3⟩
      rw [h.tasks, if_neg hlimited] at htask
      rcases List.mem_append.mp htask with htask | htask
      · obtain ⟨x, -, rfl⟩ := List.mem_map.mp htask
        rfl
      · rw [List.mem_singleton.mp htask, Call.expire_eq hlimited]
        rfl
  have hlast : Fresh c call last.timeline :=
    ⟨hsame.1.trans h.clock, hsame.2.1.trans h.tasks, hsame.2.2.trans h.ready⟩
  obtain ⟨turns, after, hfinish, hclock, -, hready, -, hattempts, -⟩ := hlast.turns (.done ()) (by
    rintro hlimited tl' - htold
    refine Call.resume_expire_ended hlimited ?_
    rw [Timeline.isCancelled, htold]
    show (if call.timeout = 0 then tl else tl.cancel 3).isCancelled 3 = true
    rw [if_neg hlimited]
    exact (Call.tells hlimited htokens).2)
  exact ⟨turns, after, hfinish, hready, hclock.trans h.clock.symm, hattempts⟩

end End

/-! ### One attempt after another -/

/-- The attempt with a number is about to be made. -/
structure Attempts (c : Forecast) (call : Call) (number : Nat)
    (tl : Timeline side.signature (recording patience).World) : Prop where
  clock : tl.clock = c.clock + 100 * number
  page : tl.world.1 = c.pageAt patience call number
  before : begun tl.world.2 = number
  tokens : tl.tokens = call.tokens
  background : Fresh c call tl ∧ number = 0 ∨ tl.ready = [] ∧ number ≠ 0 ∧
    tl.tasks = (c.pending (c.clock + 100 * number)).map Timed.task ++ c.alarms call

/-- The run of a call on a forecast, from its beginning. -/
def Forecast.start (c : Forecast) (patience : Nat) (call : Call) :
    Run side.signature (recording patience).World (Except Error (Option Handle)) :=
  Run.start (recording patience) (call.activity (browser patience)) (c.scene.recorded patience) none

/-- The run in which an attempt is made, and so many more may follow. -/
def attempting (patience : Nat) (c : Forecast) (call : Call) (fuel : Nat)
    (tl : Timeline side.signature (recording patience).World) :
    Run side.signature (recording patience).World (Except Error (Option Handle)) :=
  Run.start (recording patience) (call.looping patience c.clock fuel) tl none

section Attempts

variable {c : Forecast} {call : Call} {number fuel : Nat} {tl : Timeline side.signature (recording patience).World}
  {run : Run side.signature (recording patience).World (Except Error (Option Handle))}

/-- After an attempt that fails in time the operation pauses. -/
theorem Attempts.pauses (h : Attempts c call number tl) (fuel : Nat) {e : Error} {v : (recording patience).World}
    (hlimit : call.timeout = 0 ∨ 100 * number < call.timeout)
    (he : outright (recording patience) tl.clock (call.attempt patience c.clock) tl.world = some (.error e, v))
    (htrial : call.trial patience c.clock number (c.pageAt patience call number) = some (.error e, v.1))
    (hbegun : begun v.2 = number + 1) :
    (attempting patience c call (fuel + 1) tl).timeline.clock = c.clock + 100 * number ∧
    begun (attempting patience c call (fuel + 1) tl).timeline.world.2 = number + 1 ∧
    ∃ turns, Pauses c call patience fuel number (c.clock + 100 * number)
      ((attempting patience c call (fuel + 1) tl).finish (recording patience) turns) := by
  obtain ⟨n, hlooping⟩ := Call.advance_looping_error fuel (Call.quiet h.tokens) he
  have hstart : attempting patience c call (fuel + 1) tl =
      ⟨call.pausing patience c.clock (tl.clock + 100) fuel, { tl with world := v, announced := n }, none⟩ := by
    rw [attempting, Run.start, hlooping]
  have hwake : tl.clock + 100 = c.clock + 100 * (number + 1) := by
    rw [h.clock]
    omega
  rw [hwake] at hstart
  rw [hstart]
  refine ⟨h.clock, hbegun, ?_⟩
  rcases h.background with ⟨hfresh, rfl⟩ | ⟨hready, hnumber, htasks⟩
  · let run : Run side.signature (recording patience).World (Except Error (Option Handle)) :=
      ⟨call.pausing patience c.clock (c.clock + 100 * (0 + 1)) fuel, { tl with world := v, announced := n }, none⟩
    have hmade : Fresh c call run.timeline := ⟨hfresh.clock, hfresh.tasks, hfresh.ready⟩
    obtain ⟨turns, last, hfinish, hclock, htokens, hready, hpage, hattempts, htasks⟩ :=
      hmade.turns (call.alarm c.clock) (by
        rintro hlimited tl' hclock' htold
        refine Call.resume_expire hlimited (fun t => Call.quiet (htold.trans h.tokens) t) ?_
        rw [hclock', hmade.clock]
        omega)
    refine ⟨turns, ?_⟩
    rw [hfinish]
    refine ⟨rfl, rfl, hclock, Nat.le_refl _, ?_, hattempts.trans hbegun, htokens.trans h.tokens, hready, ?_⟩
    · rw [Nat.sub_self, Forecast.lapse, Forecast.restAfter, htrial, if_pos rfl]
      exact hpage
    · exact htasks
  · refine ⟨0, ⟨rfl, rfl, h.clock, Nat.le_refl _, ?_, hbegun, h.tokens, hready, htasks⟩⟩
    rw [Nat.sub_self, Forecast.lapse, Forecast.restAfter, htrial, if_neg hnumber]
    rfl

/-- After an attempt that succeeds the operation ends, with success if it accepts what was found. -/
theorem Attempts.ends (h : Attempts c call number tl) (fuel : Nat) {r : Option Handle}
    {v : (recording patience).World}
    (hr : outright (recording patience) tl.clock (call.attempt patience c.clock) tl.world = some (.ok r, v))
    (hfound : call.terminal.operation = .find → v.1.Holds r) (hbegun : begun v.2 = number + 1) :
    (attempting patience c call (fuel + 1) tl).timeline.clock = c.clock + 100 * number ∧
    begun (attempting patience c call (fuel + 1) tl).timeline.world.2 = number + 1 ∧
    ∃ turns o after, (attempting patience c call (fuel + 1) tl).finish (recording patience) turns =
        ⟨.done o, after, none⟩ ∧ after.ready = [] ∧ after.clock = c.clock + 100 * number ∧
      begun after.world.2 = number + 1 ∧ (v.1.Accepts call.terminal r → ∃ value, o = .ok value) := by
  obtain ⟨n, hlooping⟩ := Call.advance_looping_ok fuel (Call.quiet h.tokens) hr
  let made : Timeline side.signature (recording patience).World := { tl with world := v, announced := n }
  obtain ⟨o, w, hclosing, hw, haccepts⟩ := Call.advance_closing made hfound
  have hstart : attempting patience c call (fuel + 1) tl =
      ⟨.done o, { (if call.timeout = 0 then made else made.cancel 3) with world := w }, none⟩ := by
    rw [attempting, Run.start, hlooping, hclosing]
  have hclock : (if call.timeout = 0 then made else made.cancel 3).clock = c.clock + 100 * number := by
    split
    · exact h.clock
    · exact (Timeline.cancel_sameBut made 3).clock.trans h.clock
  have hattempts : begun w.2 = number + 1 := hw.trans hbegun
  rw [hstart]
  refine ⟨hclock, hattempts, ?_⟩
  rcases h.background with ⟨hfresh, -⟩ | ⟨hready, -, htasks⟩
  · have hmade : Fresh c call made := ⟨hfresh.clock, hfresh.tasks, hfresh.ready⟩
    obtain ⟨turns, after, hfinish, hempty, hafter, hlast⟩ :=
      finish_fresh (a := o) hmade h.tokens w
    exact ⟨turns, o, after, hfinish, hempty, hafter.trans h.clock, hlast.trans hattempts, haccepts⟩
  · by_cases hlimited : call.timeout = 0
    · rw [if_pos hlimited]
      exact ⟨0, o, _, rfl, hready, h.clock, hattempts, haccepts⟩
    · obtain ⟨after, hfinish, hempty, hafter, hlast⟩ :=
        finish_asleep (a := o) made hlimited h.tokens hready htasks w
      rw [if_neg hlimited]
      exact ⟨1, o, after, hfinish, hempty, hafter.trans h.clock, hlast ▸ hattempts, haccepts⟩

/-- On a forecast on which a call is swift, the attempt ends at once, as foreseen. -/
theorem Attempts.outcome (h : Attempts c call number tl) (hswift : c.Swift patience call)
    (hearlier : ∀ earlier < number, c.Fails patience call earlier)
    (htime : call.timeout = 0 ∨ 100 * number < call.timeout) (hpatience : call.timeout = 0 → 0 < patience) :
    ∃ x v, outright (recording patience) tl.clock (call.attempt patience c.clock) tl.world = some (x, v) ∧
      call.trial patience c.clock number (c.pageAt patience call number) = some (x, v.1) ∧
      begun v.2 = number + 1 ∧
      (call.terminal.operation = .find → ∀ found, x = .ok found → v.1.Holds found) := by
  obtain ⟨x, v, hv, htrial, hbegun, hfound⟩ := hswift.trial hearlier htime hpatience tl.world.2
  have hworld : (c.pageAt patience call number, tl.world.2) = tl.world := Prod.ext h.page.symm rfl
  rw [← h.clock] at hv
  have hoperation := congrArg (outright (recording patience) tl.clock (call.attempt patience c.clock)) hworld
  exact ⟨x, v, hoperation.symm.trans hv, htrial, hbegun.trans (congrArg (· + 1) h.before), hfound⟩

/-- When a pause is over the next attempt is made. -/
theorem Pauses.resumes (h : Pauses c call patience fuel number (c.clock + 100 * (number + 1)) run) :
    ∃ tl, run.step (recording patience) = some (attempting patience c call fuel tl) ∧
      Attempts c call (number + 1) tl := by
  have hcan : run.timeline.canResume run.main = true := by
    rw [h.main, Call.canResume_pausing, h.clock]
    simp
  have hresume : resume (recording patience) (call.pausing patience c.clock
      (c.clock + 100 * (number + 1)) fuel) run.timeline = _ :=
    Call.resume_pausing fuel (Call.quiet h.tokens 1) (Nat.le_of_eq h.clock.symm)
  refine ⟨run.timeline, (Run.step_of_canResume h.ready hcan).trans ?_, h.clock, ?_, h.attempts, h.tokens,
    .inr ⟨h.ready, Nat.succ_ne_zero number, h.tasks⟩⟩
  · rw [h.main, hresume, h.limit]
    rfl
  · rw [h.page, Forecast.pageAt]
    congr 1
    omega

/-- An operation begins with its first attempt. -/
theorem attempts_first (patience : Nat) (c : Forecast) :
    ∃ tl, c.start patience call =
        attempting patience c call (turns patience call.timeout retryDelay) tl ∧ Attempts c call 0 tl := by
  obtain ⟨hfresh, htokens, hworld⟩ := fresh_opened patience c call
  have hsignal : (c.scene.recorded patience).tokens = ⟨#[⟨[], false⟩]⟩ := by rw [recorded_forecast]
  have hclock : (c.scene.recorded patience).clock = c.clock := by rw [recorded_forecast]
  have hfirst := Call.advance_activity call hsignal
  rw [hclock] at hfirst
  refine ⟨_, ?_, hfresh.clock, ?_, ?_, htokens, .inl ⟨hfresh, rfl⟩⟩
  · exact congrArg (fun x => (⟨x.1, x.2, none⟩ : Run _ _ (Except Error (Option Handle)))) hfirst
  · rw [hworld]
    rfl
  · rw [hworld]
    rfl

/-- When the deadline has come the operation ends. -/
theorem Expired.ends (h : Expired c call patience fuel number run) (hlimited : call.timeout ≠ 0) :
    ∃ after, run.finish (recording patience) 1 = ⟨.done (.error (.timeout
        ("Timed out after waiting " ++ toString call.timeout ++ "ms"))), after, none⟩ ∧
      after.ready = [] ∧ after.clock = c.clock + call.timeout ∧ begun after.world.2 = number + 1 := by
  have hcan : run.timeline.canResume run.main = true := by
    rw [h.main, Call.canResume_pausing, h.cancelled]
    rfl
  have hresume : resume (recording patience) run.main run.timeline = (.done (.error (.timeout
      ("Timed out after waiting " ++ toString call.timeout ++ "ms"))), run.timeline.cancel 3) := by
    rw [h.main, Call.resume_pausing_expired fuel h.cancelled h.expired, Call.closing, if_neg hlimited]
    cases call.terminal <;> rfl
  have hsame := Timeline.cancel_sameBut run.timeline 3
  have hattempts : begun (run.timeline.cancel 3).world.2 = begun run.timeline.world.2 := by rw [hsame.world]
  refine ⟨run.timeline.cancel 3, ?_, (Timeline.ready_cancel h.tasks 3).trans h.ready,
    hsame.clock.trans h.clock, hattempts.trans h.attempts⟩
  rw [Run.finish_of_step (Run.step_of_canResume h.ready hcan), hresume, h.limit]
  rfl

end Attempts

/-! ### All attempts of an operation -/

/-- In a run the attempt with a number begins at a time: then one more than the number have begun, and
at no earlier turn have so many. -/
def BeginsAt (run : Run side.signature (recording patience).World (Except Error (Option Handle)))
    (number time : Nat) : Prop :=
  ∃ turns, (run.finish (recording patience) turns).timeline.clock = time ∧
    begun (run.finish (recording patience) turns).timeline.world.2 = number + 1 ∧
    ∀ earlier < turns, begun (run.finish (recording patience) earlier).timeline.world.2 ≤ number

/-- As a run goes on attempts only become more. -/
theorem begun_mono (run : Run side.signature (recording patience).World α) {earlier later : Nat}
    (h : earlier ≤ later) :
    begun (run.finish (recording patience) earlier).timeline.world.2 ≤
      begun (run.finish (recording patience) later).timeline.world.2 := by
  obtain ⟨more, rfl⟩ := Nat.exists_eq_add_of_le h
  rw [Run.finish_add]
  refine Run.finish_kept (B := recording patience) (J := fun w => begun _ ≤ begun w.2) (fun q w hw => ?_) more
    (Nat.le_refl _)
  exact Nat.le_trans hw ((begun_concat w.2 ⟨w.1, q⟩).symm ▸ Nat.le_add_right _ _)

section Operation

variable {c : Forecast} {call : Call} {number : Nat}

/-- An attempt that is made in time is not the last that is allowed for. -/
theorem lt_turns (patience : Nat) (htime : call.timeout = 0 ∨ 100 * number < call.timeout)
    (hpatience : call.timeout = 0 → number < patience) :
    turns patience call.timeout retryDelay =
      turns patience call.timeout retryDelay - (number + 1) + 1 + number := by
  have hlt : number < turns patience call.timeout retryDelay := by
    unfold turns retryDelay
    split
    · rename_i hzero
      exact hpatience hzero
    · omega
  omega

/-- After failures the next attempt is made in its time. -/
theorem reaches (hswift : c.Swift patience call)
    (hfails : ∀ earlier < number, c.Fails patience call earlier)
    (htime : call.timeout = 0 ∨ 100 * number < call.timeout) (hpatience : call.timeout = 0 → number < patience) :
    ∃ turns' tl, (c.start patience call).finish (recording patience) turns' =
        attempting patience c call (turns patience call.timeout retryDelay - number) tl ∧
      Attempts c call number tl ∧ ∀ earlier < turns',
        begun ((c.start patience call).finish (recording patience) earlier).timeline.world.2 ≤ number := by
  induction number with
  | zero =>
    obtain ⟨tl, hstart, hattempts⟩ := attempts_first patience c
    exact ⟨0, tl, hstart, hattempts, fun earlier hearlier => absurd hearlier (Nat.not_lt_zero _)⟩
  | succ number ih =>
    have hearlier : ∀ earlier < number, c.Fails patience call earlier :=
      fun earlier h => hfails earlier (Nat.lt_succ_of_lt h)
    have htime' : call.timeout = 0 ∨ 100 * number < call.timeout := htime.imp_right (by omega)
    have hpatience' : call.timeout = 0 → number < patience :=
      fun hzero => Nat.lt_of_succ_lt (hpatience hzero)
    obtain ⟨turns', tl, hreached, hattempts, hbefore⟩ := ih hearlier htime' hpatience'
    obtain ⟨x, v, hv, htrial, hbegun, -⟩ := hattempts.outcome hswift hearlier htime'
      (fun hzero => Nat.zero_lt_of_lt (hpatience' hzero))
    obtain ⟨e, he⟩ := hfails number (Nat.lt_succ_self number)
    obtain rfl : x = .error e := by
      rw [Forecast.verdict, htrial] at he
      exact Option.some.inj he
    obtain ⟨-, -, resting, hpauses⟩ := hattempts.pauses
      (turns patience call.timeout retryDelay - (number + 1)) htime' hv htrial hbegun
    obtain ⟨waiting, hwakes⟩ := hpauses.wakes (by omega) (htime.imp_right (by omega))
    obtain ⟨next, hstep, hnext⟩ := hwakes.resumes
    have hfuel : turns patience call.timeout retryDelay - number =
        turns patience call.timeout retryDelay - (number + 1) + 1 := by
      have := lt_turns patience htime' hpatience'
      omega
    rw [hfuel] at hreached
    have hpaused : (c.start patience call).finish (recording patience) (turns' + resting + waiting) =
        ((attempting patience c call (turns patience call.timeout retryDelay - (number + 1) + 1) tl).finish
          (recording patience) resting).finish (recording patience) waiting := by
      rw [Run.finish_add, Run.finish_add, hreached]
    refine ⟨turns' + resting + waiting + 1, next, ?_, hnext, fun earlier hlt => ?_⟩
    · rw [Run.finish_add, hpaused, Run.finish_of_step hstep]
      rfl
    · refine Nat.le_trans (begun_mono _ (Nat.le_of_lt_succ hlt)) (Nat.le_of_eq ?_)
      rw [hpaused]
      exact hwakes.attempts

/-- Every attempt before which the others fail begins in its time. -/
theorem begins_at (hswift : c.Swift patience call)
    (hfails : ∀ earlier < number, c.Fails patience call earlier)
    (htime : call.timeout = 0 ∨ 100 * number < call.timeout) (hpatience : call.timeout = 0 → number < patience) :
    BeginsAt (c.start patience call) number (c.clock + 100 * number) := by
  obtain ⟨turns', tl, hreached, hattempts, hbefore⟩ := reaches hswift hfails htime hpatience
  have hfuel : turns patience call.timeout retryDelay - number =
      turns patience call.timeout retryDelay - (number + 1) + 1 := by
    have := lt_turns patience htime hpatience
    omega
  rw [hfuel] at hreached
  obtain ⟨x, v, hv, htrial, hbegun, hfound⟩ := hattempts.outcome hswift hfails htime
    (fun hzero => Nat.zero_lt_of_lt (hpatience hzero))
  refine ⟨turns', ?_, ?_, hbefore⟩
  · rw [hreached]
    rcases x with e | r
    · exact (hattempts.pauses _ htime hv htrial hbegun).1
    · exact (hattempts.ends _ hv (fun hfind => hfound hfind r rfl) hbegun).1
  · rw [hreached]
    rcases x with e | r
    · exact (hattempts.pauses _ htime hv htrial hbegun).2.1
    · exact (hattempts.ends _ hv (fun hfind => hfound hfind r rfl) hbegun).2.1

/-- Of attempts that are made in time, those that do not succeed fail. -/
theorem fails_of_not_succeeds (number : Nat) (hswift : c.Swift patience call)
    (hearlier : ∀ earlier < number, ¬ c.Succeeds patience call earlier)
    (htime : ∀ earlier < number, call.timeout = 0 ∨ 100 * earlier < call.timeout)
    (hpatience : call.timeout = 0 → 0 < patience) :
    ∀ earlier < number, c.Fails patience call earlier := by
  intro earlier
  induction earlier using Nat.strong_induction_on with
  | _ earlier ih =>
    intro hlt
    obtain ⟨x, v, -, htrial, -, -⟩ := hswift.trial (fun k hk => ih k hk (Nat.lt_trans hk hlt))
      (htime earlier hlt) hpatience []
    have hverdict : c.verdict patience call earlier = some x := by
      rw [Forecast.verdict, htrial]
      rfl
    rcases x with e | r
    · exact ⟨e, hverdict⟩
    · exact absurd ⟨r, hverdict⟩ (hearlier earlier hlt)

/-- Attempts that take no time begin every hundred milliseconds, one after another.  The operation ends
with the first that succeeds, if that is before the deadline, and else at the deadline.  It ends with
success then, if the value behind what was found is one that it asks for. -/
theorem timing_of_swift (patience : Nat) (c : Forecast) (call : Call)
    (hswift : c.Swift patience call) :
    (∀ first, (∀ earlier < first, ¬ c.Succeeds patience call earlier) → c.Succeeds patience call first →
      c.Accepts patience call first →
      (100 * first < call.timeout ∨ call.timeout = 0 ∧ first < patience) →
      ∃ enough value after, (∀ budget ≥ enough, (c.scene.recorded patience).run (recording patience) budget
          (call.activity (browser patience)) = (some (.ok value), after)) ∧
        after.clock = c.clock + 100 * first ∧ begun after.world.2 = first + 1 ∧
        ∀ number ≤ first, BeginsAt (c.start patience call) number (c.clock + 100 * number)) ∧
    ((∀ number, 100 * number < call.timeout → ¬ c.Succeeds patience call number) → ¬ 100 ∣ call.timeout →
      ∃ enough after, (∀ budget ≥ enough, (c.scene.recorded patience).run (recording patience) budget
          (call.activity (browser patience)) = (some (.error (.timeout
            ("Timed out after waiting " ++ toString call.timeout ++ "ms"))), after)) ∧
        after.clock = c.clock + call.timeout ∧ begun after.world.2 = (call.timeout + 99) / 100 ∧
        ∀ number, 100 * number < call.timeout →
          BeginsAt (c.start patience call) number (c.clock + 100 * number)) := by
  refine ⟨fun first hearlier hfirst haccepts hlimit => ?_, fun hnone hodd => ?_⟩
  · have htime : call.timeout = 0 ∨ 100 * first < call.timeout := (hlimit.imp_right And.left).symm
    have hpatience : call.timeout = 0 → first < patience := fun hzero =>
      hlimit.elim (fun h => absurd h (hzero ▸ Nat.not_lt_zero _)) And.right
    have hfails := fails_of_not_succeeds first hswift hearlier
      (fun earlier hlt => htime.imp_right (by omega)) fun hzero => Nat.zero_lt_of_lt (hpatience hzero)
    obtain ⟨turns', tl, hreached, hattempts, -⟩ := reaches hswift hfails htime hpatience
    obtain ⟨x, v, hv, htrial, hbegun, hfound⟩ := hattempts.outcome hswift hfails htime
      (fun hzero => Nat.zero_lt_of_lt (hpatience hzero))
    obtain ⟨r, hr⟩ := hfirst
    obtain rfl : x = .ok r := by
      rw [Forecast.verdict, htrial] at hr
      exact Option.some.inj hr
    obtain ⟨-, -, more, o, after, hfinish, hready, hclock, hcount, hends⟩ := hattempts.ends
      (turns patience call.timeout retryDelay - (first + 1)) hv
      (fun hfind => hfound hfind r rfl) hbegun
    obtain ⟨value, rfl⟩ := hends (haccepts r v.1 htrial)
    have hfuel : turns patience call.timeout retryDelay - first =
        turns patience call.timeout retryDelay - (first + 1) + 1 := by
      have := lt_turns patience htime hpatience
      omega
    rw [hfuel] at hreached
    have hend : (c.start patience call).finish (recording patience) (turns' + more) =
        ⟨.done (.ok value), after, none⟩ := by
      rw [Run.finish_add, hreached, hfinish]
    refine ⟨turns' + more, value, after, fun budget hbudget => Timeline.run_of_still hend hready hbudget,
      hclock, hcount, fun number hnumber => ?_⟩
    exact begins_at hswift (fun earlier hlt => hfails earlier (Nat.lt_of_lt_of_le hlt hnumber))
      (htime.imp_right (by omega)) fun hzero => Nat.lt_of_le_of_lt hnumber (hpatience hzero)
  · have hlimited : call.timeout ≠ 0 := fun hzero => hodd (hzero ▸ Nat.dvd_zero 100)
    -- the last attempt that is made in time
    let last := call.timeout / 100
    have hlast : 100 * last < call.timeout := by omega
    have hlater : call.timeout < 100 * (last + 1) := by omega
    have hfails (number : Nat) (hnumber : 100 * number < call.timeout) : c.Fails patience call number :=
      fails_of_not_succeeds (number + 1) hswift (fun earlier hlt => hnone earlier (by omega))
        (fun earlier hlt => .inr (by omega)) (fun hzero => absurd hzero hlimited) number (Nat.lt_succ_self number)
    obtain ⟨turns', tl, hreached, hattempts, -⟩ := reaches hswift
      (fun earlier hlt => hfails earlier (by omega)) (.inr hlast) (fun hzero => absurd hzero hlimited)
    obtain ⟨x, v, hv, htrial, hbegun, -⟩ := hattempts.outcome hswift
      (fun earlier hlt => hfails earlier (by omega)) (.inr hlast) (fun hzero => absurd hzero hlimited)
    obtain ⟨e, he⟩ := hfails last hlast
    obtain rfl : x = .error e := by
      rw [Forecast.verdict, htrial] at he
      exact Option.some.inj he
    obtain ⟨-, -, resting, hpauses⟩ := hattempts.pauses
      (turns patience call.timeout retryDelay - (last + 1)) (.inr hlast) hv htrial hbegun
    obtain ⟨waiting, hexpired⟩ := hpauses.expires hlimited (by omega) (by omega)
    obtain ⟨after, hfinish, hready, hclock, hcount⟩ := hexpired.ends hlimited
    have hfuel : turns patience call.timeout retryDelay - last =
        turns patience call.timeout retryDelay - (last + 1) + 1 := by
      have := lt_turns patience (.inr hlast) fun hzero => absurd hzero hlimited
      omega
    rw [hfuel] at hreached
    have hend : (c.start patience call).finish (recording patience) (turns' + resting + waiting + 1) =
        ⟨.done (.error (.timeout
          ("Timed out after waiting " ++ toString call.timeout ++ "ms"))), after, none⟩ := by
      rw [Run.finish_add, Run.finish_add, Run.finish_add, hreached, hfinish]
    refine ⟨_, after, fun budget hbudget => Timeline.run_of_still hend hready hbudget, hclock, ?_,
      fun number hnumber => ?_⟩
    · rw [hcount]
      omega
    · exact begins_at hswift (fun earlier hlt => hfails earlier (by omega)) (.inr hnumber)
        fun hzero => absurd hzero hlimited

end Operation

/-- A page with a function that fails twice, and once more after a change 150 ms later. -/
def stubbornForecast : Forecast where
  page := { Page.ofElements #[] with functions := [("() => 1", ⟨2, .json .null, 0⟩)] }
  clock := 7
  changes := [⟨157, .onFunction "() => 1" 1 (.json .null)⟩]

/-- To wait for the function, for 350 ms. -/
def patientCall : Call where
  locator := .function { Locator.Options.default with timeout := 350 } () "() => 1"
  terminal := .wait
  signalled := false

/-- The first three attempts fail; the fourth succeeds, 300 ms after the first. -/
theorem timing_of_patientCall :
    ∃ enough value after, (∀ budget ≥ enough, (stubbornForecast.scene.recorded 0).run (recording 0) budget
        (patientCall.activity (browser 0)) = (some (.ok value), after)) ∧
      after.clock = 307 ∧ begun after.world.2 = 4 ∧
      ∀ number ≤ 3, BeginsAt (stubbornForecast.start 0 patientCall) number (7 + 100 * number) := by
  have hfails : ∀ earlier < 3, ∃ e, stubbornForecast.verdict 0 patientCall earlier = some (.error e) := by
    intro earlier hearlier
    have hcases : earlier = 0 ∨ earlier = 1 ∨ earlier = 2 := by omega
    rcases hcases with rfl | rfl | rfl
    · exact ⟨.scriptFailed "Scripted failure", by cbv⟩
    · exact ⟨.scriptFailed "Scripted failure", by cbv⟩
    · exact ⟨.scriptFailed "Scripted failure", by cbv⟩
  have hsucceeds : stubbornForecast.Succeeds 0 patientCall 3 := ⟨some ⟨0, .json .null⟩, by cbv⟩
  refine (timing_of_swift 0 stubbornForecast patientCall trivial).1 3 ?_ hsucceeds (fun _ _ _ => trivial)
    (.inl (by decide))
  rintro earlier hearlier ⟨v, hv⟩
  obtain ⟨e, he⟩ := hfails earlier hearlier
  cases hv.symm.trans he

end Wayfind.Simulation
