/-
Runs that keep a record of what the world was asked.

A world says what has become of it, not how.  A recorded world remembers every question it
was asked, with the state it was in at that instant.  Activities cannot see the record, so
a recorded run, its record forgotten, is the run itself (`run_forget`); what the record
shows of the one has happened in the other.
-/
import Wayfind.Activity.Session

namespace Wayfind.Activity

variable {S : Signature} {α : Type}

/-- A question at the instant when it was asked. -/
structure Moment (Query World : Type) where
  /-- The world before the answer. -/
  world : World
  query : Query

namespace Backend

variable (B : Backend S)

/-- The backend whose world remembers what it was asked, in order. -/
def recorded : Backend S where
  World := B.World × List (Moment S.Query B.World)
  answer q w :=
    ((B.answer q w.1).1, ((B.answer q w.1).2.1, w.2 ++ [⟨w.1, q⟩]), (B.answer q w.1).2.2)
  start := B.start
  discard := B.discard

end Backend

namespace Timeline

variable {B : Backend S}

/-- The timeline with a record of what was asked before. -/
def withRecord (record : List (Moment S.Query B.World)) (tl : Timeline S B.World) :
    Timeline S B.recorded.World :=
  { tl with world := (tl.world, record) }

/-- The timeline without its record. -/
def forget (tl : Timeline S B.recorded.World) : Timeline S B.World := { tl with world := tl.world.1 }

variable (tl : Timeline S B.recorded.World)

/-! ### Activities cannot see the record -/

theorem forget_withRecord (record : List (Moment S.Query B.World)) (tl : Timeline S B.World) :
    (tl.withRecord record).forget = tl := rfl

theorem withRecord_forget : tl.forget.withRecord tl.world.2 = tl := rfl

theorem forkAll_forget (jobs : List S.Job) :
    tl.forget.forkAll B jobs = (tl.forkAll B.recorded jobs).forget := by
  induction jobs generalizing tl with
  | nil => rfl
  | cons job rest ih => exact ih (tl.fork B.recorded job)

theorem cancelOne_forget (t : Token) : tl.forget.cancelOne t = (tl.cancelOne t).forget := by
  have hsame : tl.forget.isCancelled t = tl.isCancelled t := rfl
  unfold cancelOne
  by_cases hc : tl.isCancelled t = true
  · rw [hsame, if_pos hc, if_pos hc]
  · rw [hsame, if_neg hc, if_neg hc]
    rfl

theorem cancelAll_forget (tokens : List Token) :
    tokens.foldl cancelOne tl.forget = (tokens.foldl cancelOne tl).forget := by
  induction tokens generalizing tl with
  | nil => rfl
  | cons t rest ih =>
    rw [List.foldl_cons, cancelOne_forget]
    exact ih (tl.cancelOne t)

theorem cancel_forget (t : Token) : tl.forget.cancel t = (tl.cancel t).forget :=
  cancelAll_forget tl (tl.tokens.under t)

theorem post_forget (inbox : Inbox) (m : S.Message) :
    tl.forget.post inbox m = ((tl.post inbox m).1, (tl.post inbox m).2.forget) := by
  have hsame : tl.forget.inboxes = tl.inboxes := rfl
  unfold post
  by_cases hopen : tl.inboxes[inbox]?.any (!·.closed) = true
  · rw [hsame, if_pos hopen, if_pos hopen]
    rfl
  · rw [hsame, if_neg hopen, if_neg hopen]

theorem close_forget (inbox : Inbox) : tl.forget.close B inbox = (tl.close B.recorded inbox).forget :=
  forkAll_forget (tl.modifyInbox inbox fun _ => ⟨[], true⟩) ((tl.messages inbox).flatMap B.discard)

theorem perform_forget (r : Request S) :
    perform B tl.forget r = (perform B.recorded tl r).map fun x => (x.1, x.2.forget) := by
  cases r with
  | query q =>
    simp only [perform, Option.map_some]
    rw [← forkAll_forget]
    rfl
  | sleepUntil time =>
    simp only [perform]
    by_cases htime : time ≤ tl.clock
    · rw [if_pos htime]
      exact if_pos htime
    · rw [if_neg htime]
      exact if_neg htime
  | cancel t => exact congrArg (fun after => some ((), after)) (cancel_forget tl t)
  | post inbox m => exact congrArg some (post_forget tl inbox m)
  | take inbox =>
    simp only [perform]
    have hsame : tl.forget.messages inbox = tl.messages inbox := rfl
    rw [hsame]
    cases tl.messages inbox with
    | nil => rfl
    | cons m rest => rfl
  | close inbox => exact congrArg (fun after => some ((), after)) (close_forget tl inbox)
  | _ => rfl

theorem advance_forget (p : Activity S α) :
    advance B p tl.forget = ((advance B.recorded p tl).1, (advance B.recorded p tl).2.forget) := by
  induction p generalizing tl with
  | done a => rfl
  | ask r ws duties next stop ihn ihs =>
    simp only [advance, perform_forget]
    cases perform B.recorded tl r with
    | none => rfl
    | some x => exact ihn x.1 x.2

theorem resume_forget (p : Activity S α) :
    resume B p tl.forget = ((resume B.recorded p tl).1, (resume B.recorded p tl).2.forget) := by
  cases p with
  | done a => rfl
  | ask r ws duties next stop =>
    simp only [resume]
    split
    · rename_i t ht
      split
      · rename_i t' ht'
        obtain rfl : t' = t := Option.some.inj (ht'.symm.trans ht)
        exact advance_forget tl _
      · rename_i hnone
        exact absurd (hnone.symm.trans ht) nofun
    · rename_i hnone
      split
      · rename_i t ht
        exact absurd (ht.symm.trans hnone) nofun
      · exact advance_forget tl _

theorem runTask_forget (id : Nat) : tl.forget.runTask B id = (tl.runTask B.recorded id).forget := by
  unfold runTask
  have hsame : tl.forget.tasks = tl.tasks := rfl
  rw [hsame]
  cases tl.tasks.find? (·.id == id) with
  | none => rfl
  | some task =>
    have hresume := resume_forget { tl with tasks := tl.tasks.filter (·.id != id) } task.activity
    simp only [forget] at hresume ⊢
    rw [hresume]
    cases (resume B.recorded task.activity { tl with tasks := tl.tasks.filter (·.id != id) }).1 with
    | done a => rfl
    | ask r ws duties next stop => rfl

end Timeline

namespace Run

variable {B : Backend S}

/-- The run without its record. -/
def forget (run : Run S B.recorded.World α) : Run S B.World α :=
  ⟨run.main, run.timeline.forget, run.limit⟩

theorem step_forget (run : Run S B.recorded.World α) :
    run.forget.step B = (run.step B.recorded).map forget := by
  obtain ⟨main, tl, limit⟩ := run
  have hready : (⟨main, tl, limit⟩ : Run S B.recorded.World α).forget.timeline.ready = tl.ready := rfl
  unfold step
  rw [hready]
  cases tl.ready with
  | cons id rest =>
    have htask := Timeline.runTask_forget { tl with ready := rest } id
    simp only [forget, Timeline.forget, Option.map_some] at htask ⊢
    rw [htask]
  | nil =>
    have hdone : (⟨main, tl, limit⟩ : Run S B.recorded.World α).forget.isDone =
        isDone (⟨main, tl, limit⟩ : Run S B.recorded.World α) := rfl
    have hcan : tl.forget.canResume main = tl.canResume main := by cases main <;> rfl
    have hover : (⟨main, tl, limit⟩ : Run S B.recorded.World α).forget.isOver =
        isOver (⟨main, tl, limit⟩ : Run S B.recorded.World α) := rfl
    have hnext : (⟨main, tl, limit⟩ : Run S B.recorded.World α).forget.nextTime =
        nextTime (⟨main, tl, limit⟩ : Run S B.recorded.World α) := rfl
    simp only [hdone, hover, hnext]
    show (if _ then none else if tl.forget.canResume main = true then
      some (⟨(Timeline.resume B main tl.forget).1, (Timeline.resume B main tl.forget).2, limit⟩ :
        Run S B.World α) else _) = _
    rw [hcan, Timeline.resume_forget]
    split
    · rfl
    · split
      · rfl
      · split
        · rfl
        · cases nextTime (⟨main, tl, limit⟩ : Run S B.recorded.World α) with
          | none => rfl
          | some time => rfl

theorem start_forget (p : Activity S α) (tl : Timeline S B.recorded.World) (limit : Option Nat) :
    start B p tl.forget limit = (start B.recorded p tl limit).forget := by
  unfold start
  rw [Timeline.advance_forget]
  rfl

theorem finish_forget (budget : Nat) (run : Run S B.recorded.World α) :
    run.forget.finish B budget = (run.finish B.recorded budget).forget := by
  induction budget generalizing run with
  | zero => rfl
  | succ budget ih =>
    unfold finish
    rw [step_forget]
    cases run.step B.recorded with
    | none => rfl
    | some next => exact ih next

end Run

namespace Timeline

variable {B : Backend S} (budget : Nat) (p : Activity S α) (tl : Timeline S B.recorded.World)

theorem settle_forget : settle B budget tl.forget = (settle B.recorded budget tl).forget :=
  congrArg Run.timeline (Run.finish_forget budget ⟨Activity.done (), tl, none⟩)

theorem drop_forget : drop B p tl.forget = (drop B.recorded p tl).forget := by
  cases p with
  | done a => rfl
  | ask r ws duties next stop => exact congrArg Prod.snd (advance_forget tl _)

theorem giveUp_forget :
    giveUp B budget p tl.forget =
      ((giveUp B.recorded budget p tl).1, (giveUp B.recorded budget p tl).2.forget) := by
  cases p with
  | done a => exact congrArg (Prod.mk (some a)) (settle_forget budget tl)
  | ask r ws duties next stop =>
    simp only [giveUp]
    rw [drop_forget, settle_forget]

/-- A recorded run, its record forgotten, is the run. -/
theorem run_forget :
    run B budget p tl.forget =
      ((run B.recorded budget p tl).1, (run B.recorded budget p tl).2.forget) := by
  unfold run
  rw [Run.start_forget, Run.finish_forget]
  exact giveUp_forget budget _ _

/-- Every run could have been recorded. -/
theorem run_withRecord {budget : Nat} {p : Activity S α} {tl after : Timeline S B.World}
    {outcome : Option α} (h : run B budget p tl = (outcome, after)) :
    ∃ record, run B.recorded budget p (tl.withRecord []) = (outcome, after.withRecord record) := by
  have hforget := run_forget budget p (tl.withRecord [])
  rw [forget_withRecord, h] at hforget
  obtain ⟨houtcome, hafter⟩ := Prod.mk.inj hforget
  refine ⟨(run B.recorded budget p (tl.withRecord [])).2.world.2, ?_⟩
  rw [houtcome, hafter, withRecord_forget]

end Timeline

end Wayfind.Activity
