/-
Activities that depend on nobody else.

An activity is prompt when it asks nothing but the world and the time, sets nothing off,
and waits for nothing but time, in worlds where it may wait at all.  Where it may not, it
ends in the turn in which it is started.  Where nobody else is there, what it does is read
off it question by question.
-/
import Wayfind.Proofs.Activity.Lull
import Wayfind.Proofs.Page.Outcome

namespace Wayfind.Activity

open Timeline (advance resume)

variable {S : Signature} {B : Backend S} {α β : Type}

/-- In such a world the activity ends as it should, and sleeps only in worlds where it may. -/
def Prompt (B : Backend S) (W : B.World → Prop) (Q : α → B.World → Prop) :
    Activity S α → B.World → Prop
  | .done a, w => Q a w
  | .ask (.query q) _ _ next _, w =>
    (B.answer q w).2.2 = [] ∧ Prompt B W Q (next (B.answer q w).1) (B.answer q w).2.1
  | .ask .clock _ _ next _, w => ∀ time, Prompt B W Q (next time) w
  | .ask (.sleepUntil _) ws _ next _, w => W w ∧ ws = [] ∧ Prompt B W Q (next ()) w
  | .ask _ _ _ _ _, _ => False

variable {W : B.World → Prop} {Q : α → B.World → Prop} {w : B.World}

theorem Prompt.mono {Q' : α → B.World → Prop} {p : Activity S α} (h : Prompt B W Q p w)
    (hQ : ∀ a v, Q a v → Q' a v) : Prompt B W Q' p w := by
  induction p generalizing w with
  | done a => exact hQ a w h
  | ask r ws duties next stop ihn ihs =>
    cases r with
    | query q => exact ⟨h.1, ihn _ h.2⟩
    | clock => exact fun time => ihn time (h time)
    | sleepUntil time => exact ⟨h.1, h.2.1, ihn () h.2.2⟩
    | _ => exact absurd h id

theorem Prompt.and {Q' : α → B.World → Prop} {p : Activity S α} (h : Prompt B W Q p w)
    (h' : Prompt B W Q' p w) : Prompt B W (fun a v => Q a v ∧ Q' a v) p w := by
  induction p generalizing w with
  | done a => exact ⟨h, h'⟩
  | ask r ws duties next stop ihn ihs =>
    cases r with
    | query q => exact ⟨h.1, ihn _ h.2 h'.2⟩
    | clock => exact fun time => ihn time (h time) (h' time)
    | sleepUntil time => exact ⟨h.1, h.2.1, ihn () h.2.2 h'.2.2⟩
    | _ => exact absurd h id

theorem prompt_bind {Q : β → B.World → Prop} {p : Activity S α} {f : α → Activity S β} :
    Prompt B W Q (bind p f) w ↔ Prompt B W (fun a v => Prompt B W Q (f a) v) p w := by
  induction p generalizing w with
  | done a => exact Iff.rfl
  | ask r ws duties next stop ihn ihs =>
    cases r with
    | query q => exact and_congr Iff.rfl (ihn _)
    | clock => exact forall_congr' fun time => ihn time
    | sleepUntil time => exact and_congr Iff.rfl (and_congr Iff.rfl (ihn ()))
    | _ => exact Iff.rfl

theorem prompt_protect {p : Activity S α} (duties : List (Duty S)) :
    Prompt B W Q (protect duties p) w ↔ Prompt B W Q p w := by
  induction p generalizing w with
  | done a => exact Iff.rfl
  | ask r ws own next stop ihn ihs =>
    cases r with
    | query q => exact and_congr Iff.rfl (ihn _)
    | clock => exact forall_congr' fun time => ihn time
    | sleepUntil time => exact and_congr Iff.rfl (and_congr Iff.rfl (ihn ()))
    | _ => exact Iff.rfl

/-! ### Runs -/

/-- A prompt activity changes nothing but the world, until it ends or sleeps. -/
theorem Prompt.advance {p : Activity S α} {tl : Timeline S B.World} (h : Prompt B W Q p tl.world) :
    ∃ p' v, advance B p tl = (p', { tl with world := v }) ∧
      ((∃ a, p' = .done a ∧ Q a v) ∨ W v) := by
  induction p generalizing tl with
  | done a => exact ⟨.done a, tl.world, rfl, Or.inl ⟨a, rfl, h⟩⟩
  | ask r ws duties next stop ihn ihs =>
    cases r with
    | query q =>
      obtain ⟨hjobs, hnext⟩ := h
      obtain ⟨p', v, hv, hQ⟩ :=
        @ihn (B.answer q tl.world).1 { tl with world := (B.answer q tl.world).2.1 } hnext
      refine ⟨p', v, ?_, hQ⟩
      simp only [Timeline.advance, Timeline.perform, hjobs]
      exact hv
    | clock => exact ihn tl.clock (h tl.clock)
    | sleepUntil time =>
      by_cases htime : time ≤ tl.clock
      · obtain ⟨p', v, hv, hQ⟩ := @ihn () tl h.2.2
        refine ⟨p', v, ?_, hQ⟩
        simp only [Timeline.advance, Timeline.perform, if_pos htime]
        exact hv
      · refine ⟨.ask (.sleepUntil time) ws duties next stop, tl.world, ?_, Or.inr h.1⟩
        simp only [Timeline.advance, Timeline.perform, if_neg htime]
    | _ => exact absurd h id

/-- Where nobody else is there, a sleep takes two turns: the clock moves, and whoever slept goes
on. -/
theorem finish_sleep {time : Nat} {duties : List (Duty S)}
    {next : (Request.sleepUntil (S := S) time).Answer → Activity S α}
    {stop : (t : Token) → t ∈ [] → Activity S α} {tl : Timeline S B.World}
    (hready : tl.ready = []) (htasks : tl.tasks = []) (hlate : ¬ time ≤ tl.clock) (budget : Nat) :
    Run.finish B (budget + 2) (Run.start B (.ask (.sleepUntil time) [] duties next stop) tl none) =
      Run.finish B budget (Run.start B (next ()) { tl with clock := time } none) := by
  have hstart : Run.start B (.ask (.sleepUntil time) [] duties next stop) tl none =
      ⟨.ask (.sleepUntil time) [] duties next stop, tl, none⟩ := by
    simp only [Run.start, Timeline.advance, Timeline.perform, if_neg hlate]
  have hmove : tl.moveClock time = { tl with clock := time } := by
    simp [Timeline.moveClock, Timeline.tasksWhere, Timeline.wake, htasks]
  have hfirst : Run.step B ⟨.ask (.sleepUntil time) [] duties next stop, tl, none⟩ =
      some ⟨.ask (.sleepUntil time) [] duties next stop, { tl with clock := time }, none⟩ := by
    have hcan : tl.canResume (.ask (.sleepUntil time) [] duties next stop) = false := by
      simpa [Timeline.canResume] using Nat.lt_of_not_le hlate
    simp [Run.step, hready, Run.isDone, hcan, Run.isOver, Run.nextTime, Timeline.wakeTime,
      Timeline.nextWake, htasks, hmove]
  have hsecond : Run.step B ⟨.ask (.sleepUntil time) [] duties next stop, { tl with clock := time }, none⟩ =
      some (Run.start B (next ()) { tl with clock := time } none) := by
    have hcan : Timeline.canResume { tl with clock := time }
        (.ask (.sleepUntil time) [] duties next stop) = true := by
      simp [Timeline.canResume]
    rw [Run.step_of_canResume hready hcan]
    simp [Timeline.resume, Timeline.advance, Timeline.perform, Run.start]
  rw [hstart, Run.finish_of_step hfirst, Run.finish_of_step hsecond]

/-- Where nobody else is there, what follows a prompt activity begins after so many turns. -/
theorem Prompt.thenRuns {p : Activity S α} {f : α → Activity S β} {tl : Timeline S B.World}
    (h : Prompt B W Q p tl.world) (hready : tl.ready = []) (htasks : tl.tasks = []) :
    ∃ a v time turns, Q a v ∧ ∀ budget,
      Run.finish B (turns + budget) (Run.start B (bind p f) tl none) =
        Run.finish B budget (Run.start B (f a) { tl with world := v, clock := time } none) := by
  induction p generalizing tl with
  | done a => exact ⟨a, tl.world, tl.clock, 0, h, fun budget => by rw [Nat.zero_add]; rfl⟩
  | ask r ws duties next stop ihn ihs =>
    cases r with
    | query q =>
      obtain ⟨hjobs, hnext⟩ := h
      obtain ⟨a, v, time, turns, hQ, hrun⟩ := @ihn (B.answer q tl.world).1
        { tl with world := (B.answer q tl.world).2.1 } hnext hready htasks
      refine ⟨a, v, time, turns, hQ, fun budget => ?_⟩
      rw [← hrun budget]
      simp only [Run.start, bind, Timeline.advance, Timeline.perform, hjobs]
      rfl
    | clock =>
      obtain ⟨a, v, time, turns, hQ, hrun⟩ := ihn tl.clock (h tl.clock) hready htasks
      exact ⟨a, v, time, turns, hQ, hrun⟩
    | sleepUntil until' =>
      obtain ⟨-, rfl, hnext⟩ := h
      by_cases htime : until' ≤ tl.clock
      · obtain ⟨a, v, time, turns, hQ, hrun⟩ := @ihn () tl hnext hready htasks
        refine ⟨a, v, time, turns, hQ, fun budget => ?_⟩
        rw [← hrun budget]
        simp only [Run.start, bind, Timeline.advance, Timeline.perform, if_pos htime]
      -- the clock moves, and the activity goes on
      · obtain ⟨a, v, time, turns, hQ, hrun⟩ := @ihn () { tl with clock := until' } hnext hready htasks
        refine ⟨a, v, time, turns + 2, hQ, fun budget => ?_⟩
        rw [← hrun budget, Nat.add_right_comm]
        exact finish_sleep hready htasks htime (turns + budget)
    | _ => exact absurd h id

/-- Where the foreground has ended and nobody waits for a turn, a run is over. -/
theorem finish_of_still {a : α} {tl : Timeline S B.World} (hready : tl.ready = []) (budget : Nat)
    (limit : Option Nat) : Run.finish B budget ⟨.done a, tl, limit⟩ = ⟨.done a, tl, limit⟩ := by
  refine Run.finish_of_step_none ?_ budget
  simp [Run.step, hready, Run.isDone]

theorem settle_of_still {tl : Timeline S B.World} (hready : tl.ready = []) (budget : Nat) :
    tl.settle B budget = tl := by
  rw [Timeline.settle, finish_of_still hready]

/-! ### Jobs that were forked -/

/-- Jobs that fall due are forked. -/
theorem advance_fulfilForks (jobs : List S.Job) (f : Unit → Activity S α) (tl : Timeline S B.World) :
    Timeline.advance B (bind (fulfilThen (.done ()) (jobs.map Duty.fork)) f) tl =
      Timeline.advance B (f ()) (tl.forkAll B jobs) := by
  induction jobs generalizing tl with
  | nil => rfl
  | cons job rest ih => exact ih (tl.fork B job)

/-- The jobs wait for their first turn, in this order. -/
structure Queued (B : Backend S) (tl : Timeline S B.World) (jobs : List S.Job) : Prop where
  distinct : tl.ready.Nodup
  waiting : List.Forall₂ (fun id job => tl.tasks.find? (fun t => t.id == id) = some ⟨id, B.start job⟩)
    tl.ready jobs

theorem queued_fork {before : List S.Job} {job : S.Job} {tl : Timeline S B.World}
    (hq : Queued B tl before) (hnumbered : ∀ t ∈ tl.tasks, t.id < tl.nextTask) :
    Queued B (tl.fork B job) (before ++ [job]) := by
  have hlt : ∀ id ∈ tl.ready, id < tl.nextTask :=
    ((List.forall₂_and_left (R := fun _ _ => True) _ _).mp (hq.waiting.imp fun id job hfind =>
      ⟨hnumbered _ (List.mem_of_find?_eq_some hfind), trivial⟩)).1
  refine ⟨List.nodup_append.mpr ⟨hq.distinct, List.nodup_singleton _, ?_⟩, ?_⟩
  · rintro id hid _ hnext rfl
    exact absurd (hlt id hid) (by simp [List.mem_singleton.mp hnext])
  · refine List.rel_append (hq.waiting.imp fun id job hfind => ?_) (.cons ?_ .nil)
    · show (tl.tasks ++ [_]).find? _ = _
      rw [List.find?_append, hfind]
      rfl
    · show (tl.tasks ++ [_]).find? _ = _
      have hnone : tl.tasks.find? (fun t => t.id == tl.nextTask) = none :=
        List.find?_eq_none.mpr fun t ht => by simpa using Nat.ne_of_lt (hnumbered t ht)
      rw [List.find?_append, hnone]
      simp

theorem queued_forkAll (jobs : List S.Job) {tl : Timeline S B.World} (hready : tl.ready = [])
    (htasks : tl.tasks = []) : Queued B (tl.forkAll B jobs) jobs := by
  suffices h : ∀ (before : List S.Job) (tl : Timeline S B.World), Queued B tl before →
      (∀ t ∈ tl.tasks, t.id < tl.nextTask) → Queued B (tl.forkAll B jobs) (before ++ jobs) from
    h [] tl ⟨by rw [hready]; exact List.nodup_nil, by rw [hready]; exact .nil⟩
      (by rw [htasks]; exact nofun)
  induction jobs with
  | nil =>
    intro before tl hq _
    rwa [List.append_nil]
  | cons job rest ih =>
    intro before tl hq hnumbered
    have hmore := ih (before ++ [job]) (tl.fork B job) (queued_fork hq hnumbered) ?_
    · rwa [List.append_assoc] at hmore
    · intro t ht
      rcases List.mem_append.mp ht with ht | ht
      · exact Nat.lt_succ_of_lt (hnumbered t ht)
      · rw [List.mem_singleton.mp ht]
        exact Nat.lt_succ_self _

/-- One turn of the first job that waits, as far as it gets. -/
theorem Queued.turn {W : B.World → Prop} {job : S.Job} {rest : List S.Job} {tl : Timeline S B.World}
    (hq : Queued B tl (job :: rest)) (hwatched : Timeline.watched (B.start job) = [])
    (hjob : Prompt B W (fun _ v => W v) (B.start job) tl.world) :
    ∃ id ready, tl.ready = id :: ready ∧
      Queued B (Timeline.runTask B { tl with ready := ready } id) rest ∧
      W (Timeline.runTask B { tl with ready := ready } id).world := by
  obtain ⟨id, ready, hfind, hrest, hready⟩ := List.forall₂_cons_right_iff.mp hq.waiting
  obtain ⟨hfresh, hdistinct⟩ := List.nodup_cons.mp (hready ▸ hq.distinct)
  let waiting : Timeline S B.World :=
    { tl with ready := ready, tasks := tl.tasks.filter (·.id != id) }
  have hwaiting : Prompt B W (fun _ v => W v) (B.start job) waiting.world := hjob
  obtain ⟨p, v, hp, hW⟩ := hwaiting.advance
  have hlast : W v := by
    rcases hW with ⟨_, -, hW⟩ | hW <;> exact hW
  have hresume : resume B (B.start job) waiting = (p, { waiting with world := v }) :=
    (resume_of_watched_nil hwatched).trans hp
  -- whoever else waits is still there, wherever the rest of this one goes
  have hothers (more : List (Task S)) : List.Forall₂ (fun i job =>
      (waiting.tasks ++ more).find? (fun t => t.id == i) = some ⟨i, B.start job⟩)
      ready rest := by
    refine List.Forall₂.imp ?_ ((List.forall₂_and_left (R := _) _ _).mpr ⟨fun i hi => hi, hrest⟩)
    rintro i job ⟨hi, hfind⟩
    have hne : i ≠ id := fun h => hfresh (h ▸ hi)
    have hsame : (fun t : Task S => decide ((t.id != id) = true ∧ (t.id == i) = true)) =
        fun t => t.id == i := by
      funext t
      rw [Bool.eq_iff_iff]
      simp only [decide_eq_true_eq, bne_iff_ne, beq_iff_eq]
      exact ⟨And.right, fun h => ⟨h ▸ hne, h⟩⟩
    rw [List.find?_append, List.find?_filter, hsame, hfind]
    rfl
  have hfirst : ({ tl with ready := ready } : Timeline S B.World).tasks.find? (fun t => t.id == id) =
      some ⟨id, B.start job⟩ := hfind
  obtain ⟨hdone, hsuspended⟩ := runTask_of_find hfirst hresume
  refine ⟨id, ready, hready, ?_⟩
  cases p with
  | done a =>
    rw [hdone rfl]
    have hrests := hothers []
    rw [List.append_nil] at hrests
    exact ⟨⟨hdistinct, hrests⟩, hlast⟩
  | ask r ws duties next stop =>
    rw [hsuspended nofun]
    exact ⟨⟨hdistinct, hothers _⟩, hlast⟩

/-- Where nobody else is there, every job that waits has a turn. -/
theorem Queued.finish {I : List S.Job → B.World → Prop}
    (hturn : ∀ job rest w, I (job :: rest) w → Timeline.watched (B.start job) = [] ∧
      Prompt B (I rest) (fun _ v => I rest v) (B.start job) w)
    {jobs : List S.Job} {tl : Timeline S B.World} (hq : Queued B tl jobs) (hI : I jobs tl.world)
    (main : Activity S α) (limit : Option Nat) :
    ∃ after, (∀ budget, Run.finish B (jobs.length + budget) ⟨main, tl, limit⟩ =
      Run.finish B budget ⟨main, after, limit⟩) ∧ after.ready = [] ∧ I [] after.world := by
  induction jobs generalizing tl with
  | nil =>
    refine ⟨tl, fun budget => by rw [List.length_nil, Nat.zero_add], ?_, hI⟩
    exact List.forall₂_nil_right_iff.mp hq.waiting
  | cons job rest ih =>
    obtain ⟨hwatched, hjob⟩ := hturn job rest tl.world hI
    obtain ⟨id, ready, hready, hnext, hkept⟩ := hq.turn hwatched hjob
    obtain ⟨after, hrun, hempty, hlast⟩ := ih hnext hkept
    refine ⟨after, fun budget => ?_, hempty, hlast⟩
    rw [List.length_cons, Nat.add_right_comm, Run.finish_of_step (Run.step_of_ready hready)]
    exact hrun budget

/-- Where nobody else is there, what a prompt activity ends with is what a run comes to, and the jobs
that are forked at its end have had their turns. -/
theorem Prompt.runs {Q : α → B.World → Prop} {p : Activity S α} (tl : Timeline S B.World)
    (jobs : α → List S.Job) (result : α → β) (I : α → List S.Job → B.World → Prop)
    (h : Prompt B W Q p tl.world) (hready : tl.ready = []) (htasks : tl.tasks = [])
    (hI : ∀ a w, Q a w → I a (jobs a) w)
    (hturn : ∀ a job rest w, I a (job :: rest) w → Timeline.watched (B.start job) = [] ∧
      Prompt B (I a rest) (fun _ v => I a rest v) (B.start job) w) :
    ∃ enough a after, after.ready = [] ∧ I a [] after.world ∧ ∀ budget ≥ enough,
      tl.run B budget (bind p fun a => bind (fulfilThen (.done ()) ((jobs a).map Duty.fork)) fun _ =>
        .done (result a)) = (some (result a), after) := by
  obtain ⟨a, v, time, turns, hQ, hrun⟩ := h.thenRuns hready htasks (f := fun a =>
    bind (fulfilThen (.done ()) ((jobs a).map Duty.fork)) fun _ => .done (result a))
  have hqueued : Queued B (({ tl with world := v, clock := time } : Timeline S B.World).forkAll B (jobs a))
      (jobs a) := queued_forkAll (jobs a) hready htasks
  obtain ⟨after, hfinish, hempty, hlast⟩ := hqueued.finish (hturn a)
    (by rw [Timeline.forkAll_world]; exact hI a v hQ) (.done (result a)) none
  refine ⟨turns + (jobs a).length, a, after, hempty, hlast, fun budget hbudget => ?_⟩
  obtain ⟨more, rfl⟩ := Nat.exists_eq_add_of_le hbudget
  have hend : Run.finish B (turns + (jobs a).length + more) (Run.start B (bind p fun a =>
      bind (fulfilThen (.done ()) ((jobs a).map Duty.fork)) fun _ => .done (result a)) tl none) =
      ⟨.done (result a), after, none⟩ := by
    rw [Nat.add_assoc, hrun, Run.start, advance_fulfilForks]
    exact (hfinish more).trans (finish_of_still hempty more none)
  rw [Timeline.run, hend]
  exact congrArg (Prod.mk (some (result a))) (settle_of_still hempty _)

section Action

open PageSide (Action)

variable {P : PageSide} {K : Backend P.signature} {W : K.World → Prop} {w : K.World}

theorem prompt_andThen {Q : Except Error β → K.World → Prop} {a : P.Action α}
    {f : α → P.Action β} :
    Prompt K W Q (a >>= f).outcome w ↔ Prompt K W (fun r v => match r with
      | .ok x => Prompt K W Q (f x).outcome v
      | .error e => Q (.error e) v) a.outcome w := by
  rw [outcome_bind, prompt_bind]
  constructor <;> refine fun h => h.mono fun r v hr => ?_
  · cases r <;> exact hr
  · cases r <;> exact hr

/-- An action that succeeds, and what follows. -/
theorem Prompt.andThen {R : α → K.World → Prop} {Q : Except Error β → K.World → Prop}
    {a : P.Action α} {f : α → P.Action β}
    (ha : Prompt K W (fun r v => ∃ x, r = .ok x ∧ R x v) a.outcome w)
    (hf : ∀ x v, R x v → Prompt K W Q (f x).outcome v) : Prompt K W Q (a >>= f).outcome w := by
  refine prompt_andThen.mpr (ha.mono ?_)
  rintro r v ⟨x, rfl, hx⟩
  exact hf x v hx

theorem prompt_attempt {Q : Except Error β → K.World → Prop} {a : P.Action α}
    {f : Except Error α → P.Action β} :
    Prompt K W Q (a.attempt >>= f).outcome w ↔
      Prompt K W (fun r v => Prompt K W Q (f r).outcome v) a.outcome w := by
  rw [outcome_attempt_bind, prompt_bind]

theorem prompt_ask {Q : Except Error β → K.World → Prop} {q : P.Query}
    {f : P.Answer q → P.Action β} :
    Prompt K W Q (Action.query q >>= f).outcome w ↔
      (K.answer q w).2.2 = [] ∧ Prompt K W Q (f (K.answer q w).1).outcome (K.answer q w).2.1 :=
  (iff_of_eq (congrArg (fun p => Prompt K W Q p w) (outcome_lift_bind _ f))).trans Iff.rfl

theorem prompt_ofExcept {Q : Except Error α → K.World → Prop} {r : Except Error α} :
    Prompt K W Q (Action.ofExcept r : P.Action α).outcome w ↔ Q r w := by
  rw [outcome_ofExcept]
  exact Iff.rfl

/-- To sleep, where one may, changes nothing. -/
theorem prompt_sleep {Q : Except Error β → K.World → Prop} {ms : Nat} {f : Unit → P.Action β}
    (hW : W w) (hQ : Prompt K W Q (f ()).outcome w) :
    Prompt K W Q (Action.sleep ms >>= f).outcome w := by
  unfold Action.sleep
  rw [outcome_lift_bind]
  exact fun time => ⟨hW, rfl, hQ⟩

end Action

end Wayfind.Activity
