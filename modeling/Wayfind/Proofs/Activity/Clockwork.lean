/-
What goes on from one instant to the next.

At an instant an activity goes as far as it gets.  One that waits for nothing, cancels
nothing and sets nothing off ends `outright`, and what it comes to is read off the world and
the time alone.  When nobody can go on, the clock moves to the next time that somebody waits
for, and whoever waits for it is queued, in order.
-/
import Wayfind.Proofs.Activity.Prompt
import Wayfind.Proofs.Activity.Recording

namespace Wayfind.Activity

open Timeline (advance resume runTask canResume wakeTime)

variable {S : Signature} {B : Backend S} {α β : Type}

/-! ### Ending outright -/

/-- What an activity comes to at such a time while no token is cancelled, if it waits for nothing and
asks for nothing but the world, the time and tokens. -/
def outright (B : Backend S) (time : Nat) : Activity S α → B.World → Option (α × B.World)
  | .done a, w => some (a, w)
  | .ask (.query q) _ _ next _, w => outright B time (next (B.answer q w).1) (B.answer q w).2.1
  | .ask .clock _ _ next _, w => outright B time (next time) w
  | .ask (.isCancelled _) _ _ next _, w => outright B time (next false) w
  | .ask .announce _ _ next _, w => outright B time (next ()) w
  | .ask _ _ _ _ _, _ => none

section Outright

variable {time : Nat} {w : B.World}

theorem outright_bind (p : Activity S α) (f : α → Activity S β) :
    outright B time (bind p f) w = (outright B time p w).bind fun x => outright B time (f x.1) x.2 := by
  induction p generalizing w with
  | done a => rfl
  | ask r ws duties next stop ihn ihs =>
    cases r with
    | query q => exact ihn _
    | clock => exact ihn _
    | isCancelled t => exact ihn _
    | announce => exact ihn _
    | _ => rfl

theorem outright_protect (duties : List (Duty S)) (p : Activity S α) :
    outright B time (protect duties p) w = outright B time p w := by
  induction p generalizing w with
  | done a => rfl
  | ask r ws own next stop ihn ihs =>
    cases r with
    | query q => exact ihn _
    | clock => exact ihn _
    | isCancelled t => exact ihn _
    | announce => exact ihn _
    | _ => rfl

theorem outright_guard (t : Token) (halt p : Activity S α) :
    outright B time (guard t halt p) w = outright B time p w := by
  induction p generalizing w with
  | done a => rfl
  | ask r ws own next stop ihn ihs =>
    cases r with
    | query q => exact ihn _
    | clock => exact ihn _
    | isCancelled t => exact ihn _
    | announce => exact ihn _
    | _ => rfl

/-- What ends outright goes on with what follows at the same instant; nothing but the world has
changed, and how much was announced. -/
theorem advance_outright {p : Activity S α} {f : α → Activity S β} {tl : Timeline S B.World} {a : α}
    {v : B.World} (hjobs : ∀ q w, (B.answer q w).2.2 = []) (hquiet : ∀ t, tl.isCancelled t = false)
    (hp : outright B tl.clock p tl.world = some (a, v)) :
    ∃ n, advance B (bind p f) tl = advance B (f a) { tl with world := v, announced := n } := by
  induction p generalizing tl with
  | done a' =>
    obtain ⟨rfl, rfl⟩ := Prod.mk.inj (Option.some.inj hp)
    exact ⟨tl.announced, rfl⟩
  | ask r ws duties next stop ihn ihs =>
    cases r with
    | query q =>
      obtain ⟨n, hn⟩ := @ihn (B.answer q tl.world).1 { tl with world := (B.answer q tl.world).2.1 } hquiet hp
      refine ⟨n, ?_⟩
      simp only [bind, advance, Timeline.perform, hjobs]
      exact hn
    | clock => exact ihn tl.clock hquiet hp
    | isCancelled t =>
      obtain ⟨n, hn⟩ := ihn false hquiet hp
      refine ⟨n, ?_⟩
      simp only [bind, advance, Timeline.perform, hquiet]
      exact hn
    | announce => exact @ihn () { tl with announced := tl.announced + 1 } hquiet hp
    | _ => exact absurd hp.symm (Option.some_ne_none _)

/-- The record has no part in what an activity comes to. -/
theorem outright_recorded (p : Activity S α) (w : B.recorded.World) :
    (outright B.recorded time p w).map (fun x => (x.1, x.2.1)) = outright B time p w.1 := by
  induction p generalizing w with
  | done a => rfl
  | ask r ws duties next stop ihn ihs =>
    cases r with
    | query q => exact ihn _ _
    | clock => exact ihn _ _
    | isCancelled t => exact ihn _ _
    | announce => exact ihn _ _
    | _ => rfl

end Outright

/-! ### Single requests -/

section Requests

variable {tl : Timeline S B.World} {ws : List Token} {duties : List (Duty S)}

/-- Whoever sleeps goes on when the time has come. -/
theorem advance_woken {time : Nat} {next : (Request.sleepUntil (S := S) time).Answer → Activity S α}
    {stop : (t : Token) → t ∈ ws → Activity S α} (h : time ≤ tl.clock) :
    advance B (.ask (.sleepUntil time) ws duties next stop) tl = advance B (next ()) tl := by
  simp only [advance, Timeline.perform, if_pos h]

/-- Before that it stays where it is. -/
theorem advance_asleep {time : Nat} {next : (Request.sleepUntil (S := S) time).Answer → Activity S α}
    {stop : (t : Token) → t ∈ ws → Activity S α} (h : tl.clock < time) :
    advance B (.ask (.sleepUntil time) ws duties next stop) tl =
      (.ask (.sleepUntil time) ws duties next stop, tl) := by
  simp only [advance, Timeline.perform, if_neg (Nat.not_le.mpr h)]

theorem advance_isCancelled {t : Token} {next : (Request.isCancelled (S := S) t).Answer → Activity S α}
    {stop : (t : Token) → t ∈ ws → Activity S α} {b : Bool} (h : tl.isCancelled t = b) :
    advance B (.ask (.isCancelled t) ws duties next stop) tl = advance B (next b) tl := by
  subst h
  rfl

end Requests

/-! ### The clock moves -/

section Clock

variable {World : Type} {tl : Timeline S World}

/-- Who is queued, if nobody was, are those that are woken, in order. -/
theorem Timeline.ready_wake {ids : List Nat} (hready : tl.ready = []) (hids : ids.Nodup) :
    (tl.wake ids).ready = ids := by
  suffices h : ∀ queue : List Nat, (queue ++ ids).Nodup →
      ids.foldl (fun queue i => if queue.contains i then queue else queue ++ [i]) queue = queue ++ ids by
    unfold Timeline.wake
    rw [hready]
    exact h [] hids
  clear hids hready
  induction ids with
  | nil => exact fun queue _ => (List.append_nil queue).symm
  | cons i rest ih =>
    intro queue hnodup
    have hnew : i ∉ queue := fun hi =>
      (List.nodup_append.mp hnodup).2.2 i hi i List.mem_cons_self rfl
    have hrest := ih (queue ++ [i]) (by rwa [List.append_assoc])
    rw [List.foldl_cons, if_neg (by simpa using hnew), hrest, List.append_assoc]
    rfl

/-- When the clock moves, those are queued whose time has come. -/
theorem Timeline.ready_moveClock (hready : tl.ready = []) (hids : (tl.tasks.map (·.id)).Nodup) (time : Nat) :
    (tl.moveClock time).ready =
      (tl.tasks.filter fun t => (wakeTime t.activity).any (· ≤ time)).map (·.id) := by
  let moved : Timeline S World := { tl with clock := time }
  have hnone : moved.ready = [] := hready
  exact Timeline.ready_wake hnone (hids.sublist (List.filter_sublist.map _))

/-- When nobody can go on, the clock moves to the next time that somebody waits for. -/
theorem Run.step_of_waits {run : Run S B.World α} {wake : Nat} (hready : run.timeline.ready = [])
    (hmain : wakeTime run.main = some wake) (hstuck : canResume run.timeline run.main = false)
    (hlimit : run.limit = none) :
    ∃ time, run.step B = some { run with timeline := run.timeline.moveClock time } ∧ time ≤ wake ∧
      (∀ task ∈ run.timeline.tasks, ∀ t ∈ wakeTime task.activity, time ≤ t) ∧
      (time = wake ∨ ∃ task ∈ run.timeline.tasks, wakeTime task.activity = some time) := by
  have hgoing : run.isDone = false := by
    unfold Run.isDone
    split
    · rename_i a hdone
      rw [hdone] at hmain
      exact absurd hmain nofun
    · rfl
  have hover : run.isOver = false := by rw [Run.isOver, hlimit]; rfl
  have hnext : run.nextTime = (wake :: run.timeline.nextWake.toList).min? := by
    rw [Run.nextTime, hmain, hlimit, Option.toList_none, List.append_nil]
    rfl
  obtain ⟨time, htime⟩ : ∃ time, run.nextTime = some time :=
    ⟨_, hnext.trans (List.min?_cons' ..)⟩
  have hleast := List.min?_eq_some_iff.mp (hnext.symm.trans htime)
  have hfuture (t : Nat) (ht : t ∈ run.timeline.nextWake) :
      (∀ task ∈ run.timeline.tasks, ∀ u ∈ wakeTime task.activity, t ≤ u) ∧
        ∃ task ∈ run.timeline.tasks, wakeTime task.activity = some t := by
    have hmin := List.min?_eq_some_iff.mp ht
    refine ⟨fun task htask u hu => hmin.2 u (List.mem_filterMap.mpr ⟨task, htask, hu⟩), ?_⟩
    obtain ⟨task, htask, hwake⟩ := List.mem_filterMap.mp hmin.1
    exact ⟨task, htask, hwake⟩
  refine ⟨time, ?_, hleast.2 wake List.mem_cons_self, fun task htask t ht => ?_, ?_⟩
  · simp only [Run.step, hready, hgoing, hstuck, hover, htime, Bool.false_eq_true, if_false]
  · rcases hwake : run.timeline.nextWake with _ | first
    · have hnone : run.timeline.tasks.filterMap (fun t => wakeTime t.activity) = [] := by
        simpa [Timeline.nextWake] using hwake
      have hmem : t ∈ run.timeline.tasks.filterMap fun t => wakeTime t.activity :=
        List.mem_filterMap.mpr ⟨task, htask, ht⟩
      rw [hnone] at hmem
      exact absurd hmem List.not_mem_nil
    · exact Nat.le_trans (hleast.2 first (by rw [hwake]; simp)) ((hfuture first hwake).1 task htask t ht)
  · rcases List.mem_cons.mp hleast.1 with hsame | hmem
    · exact .inl hsame
    · exact .inr (hfuture time (Option.mem_toList.mp hmem)).2

end Clock

/-! ### The queue -/

/-- What somebody in the background does in a turn, if the time and the tokens are what they are:
how the world changes, and how it goes on. -/
structure Turn (B : Backend S) where
  id : Nat
  before : Activity S Unit
  deed : B.World → B.World
  after : Activity S Unit

namespace Turn

variable (turn : Turn B)

/-- Who takes the turn. -/
def task : Task S := ⟨turn.id, turn.before⟩

/-- Who is left after the turn. -/
def left : List (Task S) :=
  match turn.after with
  | .done _ => []
  | .ask r ws duties next stop => [⟨turn.id, .ask r ws duties next stop⟩]

/-- At such a time, with such tokens, that is what it does. -/
def Taken (clock : Nat) (tokens : Tokens) : Prop :=
  ∀ tl : Timeline S B.World, tl.clock = clock → tl.tokens = tokens →
    resume B turn.before tl = (turn.after, { tl with world := turn.deed tl.world })

/-- It keeps its number. -/
theorem left_ids : (turn.left.map (·.id)).Sublist [turn.id] := by
  unfold left
  split
  · exact List.nil_sublist _
  · exact List.Sublist.refl _

theorem id_of_mem_left {task : Task S} (h : task ∈ turn.left) : task.id = turn.id :=
  List.mem_singleton.mp (turn.left_ids.subset (List.mem_map_of_mem h))

end Turn

section Queue

/-- Forked jobs are numbered in order, and queued in that order. -/
theorem Timeline.forkAll_eq {World : Type} (jobs : List S.Job) (tl : Timeline S World) :
    tl.forkAll B jobs = { tl with
      tasks := tl.tasks ++ (jobs.zipIdx tl.nextTask).map fun x => ⟨x.2, B.start x.1⟩
      ready := tl.ready ++ (jobs.zipIdx tl.nextTask).map (·.2)
      nextTask := tl.nextTask + jobs.length } := by
  induction jobs generalizing tl with
  | nil => simp [Timeline.forkAll]
  | cons job rest ih =>
    have hstep : tl.forkAll B (job :: rest) = (tl.fork B job).forkAll B rest := rfl
    rw [hstep, ih]
    simp [Timeline.fork, Nat.add_right_comm, Nat.add_assoc]

variable {tl : Timeline S B.World}

theorem Timeline.runTask_turn {turn : Turn B} (hids : (tl.tasks.map (·.id)).Nodup)
    (hmem : turn.task ∈ tl.tasks) (htaken : turn.Taken tl.clock tl.tokens) :
    runTask B tl turn.id = { tl with
      world := turn.deed tl.world
      tasks := tl.tasks.filter (·.id != turn.id) ++ turn.left } := by
  have hfind : tl.tasks.find? (fun t => t.id == turn.id) = some turn.task := by
    rcases hsome : tl.tasks.find? (fun t => t.id == turn.id) with _ | task
    · exact absurd (List.find?_eq_none.mp hsome _ hmem) (by simp [Turn.task])
    · have hid : task.id = turn.id := by simpa using List.find?_some hsome
      exact hsome.trans (congrArg some
        (List.inj_on_of_nodup_map hids (List.mem_of_find?_eq_some hsome) hmem hid))
  obtain ⟨hended, hwaits⟩ := runTask_of_find hfind
    (htaken { tl with tasks := tl.tasks.filter (·.id != turn.id) } rfl rfl)
  unfold Turn.left
  rcases hafter : turn.after with a | ⟨r, ws, duties, next, stop⟩
  · rw [hended hafter, List.append_nil]
  · rw [hwaits (hafter ▸ nofun), hafter]

/-- Everybody who is queued takes a turn, in order. -/
theorem Run.finish_turns (turns : List (Turn B)) {more : List Nat} (run : Run S B.World α)
    (hready : run.timeline.ready = turns.map (·.id) ++ more)
    (hids : (run.timeline.tasks.map (·.id)).Nodup)
    (hturns : (turns.map Turn.task).Sublist run.timeline.tasks)
    (htaken : ∀ turn ∈ turns, turn.Taken run.timeline.clock run.timeline.tokens) :
    run.finish B turns.length = { run with timeline := { run.timeline with
      world := turns.foldl (fun w turn => turn.deed w) run.timeline.world
      ready := more
      tasks := run.timeline.tasks.filter (fun task => !(turns.map (·.id)).contains task.id) ++
        turns.flatMap Turn.left } } := by
  induction turns generalizing run with
  | nil =>
    obtain ⟨main, tl, limit⟩ := run
    obtain rfl : tl.ready = more := hready
    simp [Run.finish]
  | cons turn rest ih =>
    have hnodup : ((turn :: rest).map (·.id)).Nodup := by
      have hsub := hturns.map (·.id)
      rw [List.map_map] at hsub
      exact hids.sublist hsub
    obtain ⟨hfresh, -⟩ := List.nodup_cons.mp hnodup
    have hne (other : Turn B) (hother : other ∈ rest) : other.id ≠ turn.id := fun hsame =>
      hfresh (List.mem_map.mpr ⟨other, hother, hsame⟩)
    have hothers : (rest.map Turn.task).Sublist (run.timeline.tasks.filter (·.id != turn.id)) := by
      have hsub := hturns.filter (fun task => task.id != turn.id)
      rw [List.map_cons, List.filter_cons_of_neg (by simp [Turn.task]), List.filter_eq_self.mpr] at hsub
      · exact hsub
      · intro task htask
        obtain ⟨other, hother, rfl⟩ := List.mem_map.mp htask
        exact bne_iff_ne.mpr (hne other hother)
    have hids' : ((run.timeline.tasks.filter (·.id != turn.id) ++ turn.left).map (·.id)).Nodup := by
      rw [List.map_append]
      refine List.nodup_append.mpr ⟨hids.sublist (List.filter_sublist.map _),
        (List.nodup_singleton _).sublist turn.left_ids, ?_⟩
      rintro id hid _ hleft rfl
      obtain ⟨task, htask, rfl⟩ := List.mem_map.mp hid
      have hsame := List.mem_singleton.mp (turn.left_ids.subset hleft)
      exact bne_iff_ne.mp (List.mem_filter.mp htask).2 hsame
    have hkept : turn.left.filter (fun task => !(rest.map (·.id)).contains task.id) = turn.left := by
      refine List.filter_eq_self.mpr fun task htask => ?_
      rw [turn.id_of_mem_left htask]
      simpa using hne
    have hturn : runTask B { run.timeline with ready := rest.map (·.id) ++ more } turn.id = _ :=
      Timeline.runTask_turn hids (hturns.subset List.mem_cons_self) (htaken turn List.mem_cons_self)
    have hstep := (Run.step_of_ready hready).trans
      (congrArg (fun tl => some { run with timeline := tl }) hturn)
    have hlater := ih { run with timeline := { run.timeline with
        world := turn.deed run.timeline.world
        ready := rest.map (·.id) ++ more
        tasks := run.timeline.tasks.filter (·.id != turn.id) ++ turn.left } } rfl hids'
      (hothers.trans (List.sublist_append_left _ _))
      fun other hother => htaken other (List.mem_cons_of_mem turn hother)
    refine (Run.finish_of_step hstep rest.length).trans (hlater.trans ?_)
    simp only [List.filter_append, hkept, List.filter_filter, List.flatMap_cons, List.append_assoc,
      List.foldl_cons, List.map_cons, List.contains_cons, Bool.not_or, Bool.and_comm]
    rfl

end Queue

/-! ### What every question keeps -/

section Kept

variable {J : B.World → Prop}

/-- A turn keeps what every question keeps. -/
theorem Run.step_kept (hJ : ∀ q w, J w → J (B.answer q w).2.1) {run next : Run S B.World α}
    (hstep : run.step B = some next) (h : J run.timeline.world) : J next.timeline.world := by
  have hmild : KeptBy B (fun _ => True) J := fun q w _ => hJ q w
  have hall {γ : Type} (p : Activity S γ) : Innocent (fun _ => True) p :=
    innocent_of_forall (fun _ => trivial) p
  unfold Run.step at hstep
  split at hstep
  · rename_i id rest hready
    rw [← Option.some.inj hstep]
    let queued : Timeline S B.World := { run.timeline with ready := rest }
    have hqueued : queued.Tame (fun _ => True) (fun _ => True) := fun task _ => (hall _).tame
    exact (runTask_tame (tames_of_innocent fun job => hall _) hmild hqueued h id).2
  · split at hstep
    · exact absurd hstep nofun
    · split at hstep
      · rw [← Option.some.inj hstep]
        exact (resume_innocent hmild (hall run.main) h).2
      · split at hstep
        · exact absurd hstep nofun
        · split at hstep
          · rw [← Option.some.inj hstep]
            exact h
          · exact absurd hstep nofun

theorem Run.finish_kept (hJ : ∀ q w, J w → J (B.answer q w).2.1) (budget : Nat)
    {run : Run S B.World α} (h : J run.timeline.world) : J (run.finish B budget).timeline.world := by
  induction budget generalizing run with
  | zero => exact h
  | succ budget ih =>
    rcases hstep : run.step B with _ | next
    · rw [Run.finish_of_step_none hstep]
      exact h
    · rw [Run.finish_of_step hstep]
      exact ih (Run.step_kept hJ hstep h)

end Kept

/-! ### Nobody is woken -/

/-- To cancel a token that nobody in the background watches wakes nobody. -/
theorem Timeline.ready_cancel {World : Type} {tl : Timeline S World}
    (h : ∀ task ∈ tl.tasks, Timeline.watched task.activity = []) (t : Token) :
    (tl.cancel t).ready = tl.ready := by
  unfold Timeline.cancel
  generalize tl.tokens.under t = tokens
  induction tokens generalizing tl with
  | nil => rfl
  | cons u rest ih =>
    have htasks := (Timeline.cancelOne_sameBut tl u).tasks
    rw [List.foldl_cons, ih (htasks ▸ h)]
    unfold Timeline.cancelOne
    split
    · rfl
    · have hnobody : tl.tasks.filter (fun task => Timeline.watches u task.activity) = [] := by
        refine List.filter_eq_nil_iff.mpr fun task htask => ?_
        have hwatched := h task htask
        revert hwatched
        cases task.activity with
        | done a => exact fun _ => Bool.false_ne_true
        | ask r ws duties next stop =>
          rintro rfl
          exact Bool.false_ne_true
      simp [Timeline.wake, Timeline.tasksWhere, hnobody]

/-- A token under which there is nothing is cancelled alone. -/
theorem Timeline.cancel_bare {World : Type} {tl : Timeline S World} {t : Token} (hrow : tl.tokens.row t = []) :
    tl.cancel t = tl.cancelOne t := by
  have hunder : tl.tokens.under t = [t] := by
    rw [Tokens.under, hrow]
    cases tl.tokens.states.size <;> rfl
  rw [Timeline.cancel, hunder]
  rfl

/-- What is cancelled stays so. -/
theorem Timeline.isCancelled_cancel_of {World : Type} {tl : Timeline S World} {t u : Token}
    (h : tl.isCancelled u = true) : (tl.cancel t).isCancelled u = true :=
  (Timeline.isCancelled_cancel tl t u).mpr (.inr h)

theorem Timeline.isCancelled_cancel_made {World : Type} {tl : Timeline S World} {t : Token}
    (ht : t < tl.tokens.count) : (tl.cancel t).isCancelled t = true :=
  (Timeline.isCancelled_cancel tl t t).mpr (.inl ⟨List.mem_append_right _ (List.mem_singleton_self t), ht⟩)

/-! ### The end -/

/-- A run that has ended and in which nobody is queued any more has come to its end. -/
theorem Timeline.run_of_still {turns : Nat} {p : Activity S α} {tl after : Timeline S B.World} {a : α}
    (h : Run.finish B turns (Run.start B p tl none) = ⟨.done a, after, none⟩) (hready : after.ready = [])
    {budget : Nat} (hbudget : turns ≤ budget) : tl.run B budget p = (some a, after) := by
  obtain ⟨more, rfl⟩ := Nat.exists_eq_add_of_le hbudget
  have hend : Run.finish B (turns + more) (Run.start B p tl none) = ⟨.done a, after, none⟩ := by
    rw [Run.finish_add, h, finish_of_still hready]
  rw [Timeline.run, hend]
  exact congrArg (Prod.mk (some a)) (settle_of_still hready _)

end Wayfind.Activity
