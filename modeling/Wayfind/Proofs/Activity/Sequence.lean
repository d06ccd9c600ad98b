/-
Two activities one after the other, run to their end.

While the first goes on, turn by turn, nothing tells its run from that of both
(`Run.followedBy`); when it has ended, what is left is a run of the second.
-/
import Wayfind.Proofs.Activity.Trail

namespace Wayfind.Activity

open Timeline (advance resume canResume wakeTime)

variable {S : Signature} {B : Backend S} {α β : Type}

section Bind

variable {p : Activity S α} {f : α → Activity S β} {tl after : Timeline S B.World} {a : α}

/-- What has ended is followed by the next. -/
theorem advance_bind_of_done (h : advance B p tl = (.done a, after)) :
    advance B (bind p f) tl = advance B (f a) after := by
  induction p generalizing tl with
  | done a' =>
    obtain ⟨hsame, rfl⟩ := Prod.mk.inj h
    obtain rfl : a' = a := Activity.done.inj hsame
    rfl
  | ask r ws duties next stop ihn ihs =>
    rcases hp : Timeline.perform B tl r with _ | ⟨answer, mid⟩
    · simp only [advance, hp] at h
      cases h
    · simp only [advance, hp] at h
      simp only [bind, advance, hp]
      exact ihn answer h

/-- What has to wait makes both wait. -/
theorem advance_bind_of_waits (f : α → Activity S β) (h : ∀ a, (advance B p tl).1 ≠ .done a) :
    advance B (bind p f) tl = (bind (advance B p tl).1 f, (advance B p tl).2) := by
  induction p generalizing tl with
  | done a => exact absurd rfl (h a)
  | ask r ws duties next stop ihn ihs =>
    rcases hp : Timeline.perform B tl r with _ | ⟨answer, mid⟩
    · simp only [bind, advance, hp]
    · simp only [advance, hp] at h
      simp only [bind, advance, hp]
      exact ihn answer h

/-- To resume both is to go on with the first as it would go on alone. -/
theorem exists_resume_bind (f : α → Activity S β) (tl : Timeline S B.World) (hlive : ∀ a, p ≠ .done a) :
    ∃ q, resume B p tl = advance B q tl ∧ resume B (bind p f) tl = advance B (bind q f) tl := by
  cases p with
  | done a => exact absurd rfl (hlive a)
  | ask r ws duties next stop =>
    rcases hfind : ws.find? tl.isCancelled with _ | t
    · refine ⟨.ask r ws duties next stop, ?_, ?_⟩
      · rw [Timeline.resume_eq, Timeline.onward_of_find_none hfind]
      · refine (Timeline.resume_eq (bind _ f) tl).trans (congrArg (advance B · tl) ?_)
        exact Timeline.onward_of_find_none hfind
    · refine ⟨stop t (List.mem_of_find?_eq_some hfind), ?_, ?_⟩
      · rw [Timeline.resume_eq, Timeline.onward_interrupted hfind]
      · refine (Timeline.resume_eq (bind _ f) tl).trans (congrArg (advance B · tl) ?_)
        exact Timeline.onward_interrupted hfind

end Bind

namespace Run

/-- The run of an activity and of what follows it, as long as the first has not ended. -/
def followedBy {World : Type} (f : α → Activity S β) (run : Run S World α) : Run S World β :=
  ⟨bind run.main f, run.timeline, run.limit⟩

variable {p : Activity S α} {f : α → Activity S β} {tl : Timeline S B.World} {limit : Option Nat}

/-- Both are started with the first. -/
theorem start_bind (p : Activity S α) (f : α → Activity S β) (tl : Timeline S B.World) (limit : Option Nat) :
    (∃ a after, start B p tl limit = ⟨.done a, after, limit⟩ ∧
        start B (bind p f) tl limit = start B (f a) after limit) ∨
      ((∀ a, (start B p tl limit).main ≠ .done a) ∧
        start B (bind p f) tl limit = (start B p tl limit).followedBy f) := by
  rcases hp : (advance B p tl).1 with a | ⟨r, ws, duties, next, stop⟩
  · have hdone : advance B p tl = (.done a, (advance B p tl).2) := Prod.ext hp rfl
    refine Or.inl ⟨a, (advance B p tl).2, ?_, ?_⟩
    · unfold start
      rw [hdone]
    · unfold start
      rw [advance_bind_of_done hdone]
  · have hlive : ∀ a, (advance B p tl).1 ≠ .done a := fun a ha => by cases hp.symm.trans ha
    refine Or.inr ⟨hlive, ?_⟩
    unfold start followedBy
    rw [advance_bind_of_waits f hlive]

/-- Both can go on when the first can, and wait for the same time. -/
theorem waits_bind {World : Type} (tl : Timeline S World) (limit : Option Nat) (f : α → Activity S β)
    (hlive : ∀ a, p ≠ .done a) :
    canResume tl (bind p f) = canResume tl p ∧ wakeTime (bind p f) = wakeTime p ∧
      (⟨bind p f, tl, limit⟩ : Run S World β).isDone = false ∧
      (⟨p, tl, limit⟩ : Run S World α).isDone = false := by
  cases p with
  | done a => exact absurd rfl (hlive a)
  | ask r ws duties next stop => cases r <;> exact ⟨rfl, rfl, rfl, rfl⟩

/-- Where nobody can go on, time passes unless the run is over. -/
theorem step_of_stuck (run : Run S B.World α) (hready : run.timeline.ready = []) (hdone : run.isDone = false)
    (hcan : canResume run.timeline run.main = false) :
    run.step B = if run.isOver then none
      else run.nextTime.map fun time => { run with timeline := run.timeline.moveClock time } := by
  unfold step
  rw [hready, hdone, hcan]
  cases run.nextTime <;> rfl

/-- A turn of both is a turn of the first, with what follows if it has ended by that. -/
theorem step_followedBy {run : Run S B.World α} (f : α → Activity S β) (hlive : ∀ a, run.main ≠ .done a) :
    (run.step B = none ∧ (run.followedBy f).step B = none) ∨
      ∃ next, run.step B = some next ∧ next.limit = run.limit ∧
        ((∃ a, next.main = .done a ∧
            (run.followedBy f).step B = some (start B (f a) next.timeline run.limit)) ∨
          ((∀ a, next.main ≠ .done a) ∧ (run.followedBy f).step B = some (next.followedBy f))) := by
  obtain ⟨p, tl, limit⟩ := run
  obtain ⟨hcan, hwake, hboth, hfirst⟩ := waits_bind tl limit f hlive
  rcases hready : tl.ready with _ | ⟨id, rest⟩
  · rcases hresume : canResume tl p with _ | _
    · -- nobody can go on, and time passes for both or for neither
      have htime : (⟨bind p f, tl, limit⟩ : Run S B.World β).nextTime =
          (⟨p, tl, limit⟩ : Run S B.World α).nextTime := by
        simp only [nextTime, hwake]
      have halone := step_of_stuck (B := B) ⟨p, tl, limit⟩ hready hfirst hresume
      have htogether := step_of_stuck (B := B) ((⟨p, tl, limit⟩ : Run S B.World α).followedBy f) hready
        hboth (hcan.trans hresume)
      rw [show ((⟨p, tl, limit⟩ : Run S B.World α).followedBy f).nextTime = _ from htime] at htogether
      by_cases hover : limit.any (· ≤ tl.clock) = true
      · exact Or.inl ⟨halone.trans (if_pos hover), htogether.trans (if_pos hover)⟩
      · rcases hnext : (⟨p, tl, limit⟩ : Run S B.World α).nextTime with _ | time
        · rw [hnext] at halone htogether
          exact Or.inl ⟨halone.trans (if_neg hover), htogether.trans (if_neg hover)⟩
        · rw [hnext] at halone htogether
          exact Or.inr ⟨_, halone.trans (if_neg hover), rfl, Or.inr ⟨hlive, htogether.trans (if_neg hover)⟩⟩
    · -- the first goes on
      obtain ⟨q, halone, htogether⟩ := exists_resume_bind f tl hlive
      have hstep : (⟨p, tl, limit⟩ : Run S B.World α).step B = some (start B q tl limit) := by
        rw [step_of_canResume hready hresume, halone]
        rfl
      have hsteps : ((⟨p, tl, limit⟩ : Run S B.World α).followedBy f).step B =
          some (start B (bind q f) tl limit) := by
        refine (step_of_canResume hready (hcan.trans hresume)).trans ?_
        exact congrArg (fun next => some (Run.mk next.1 next.2 limit : Run S B.World β)) htogether
      refine Or.inr ⟨_, hstep, rfl, ?_⟩
      rcases start_bind q f tl limit with ⟨a, after, hended, hnext⟩ | ⟨hwaits, hnext⟩
      · refine Or.inl ⟨a, by rw [hended], ?_⟩
        rw [hsteps, hnext, hended]
      · exact Or.inr ⟨hwaits, hsteps.trans (congrArg some hnext)⟩
  · exact Or.inr ⟨_, step_of_ready hready, rfl, Or.inr ⟨hlive, step_of_ready hready⟩⟩

/-- While the first goes on so do both, and when it has ended the second is started. -/
theorem finish_followedBy (f : α → Activity S β) (turns : Nat) {run : Run S B.World α}
    (hlive : ∀ a, run.main ≠ .done a) :
    (∃ first ≤ turns, ∃ a after, run.finish B first = ⟨.done a, after, run.limit⟩ ∧
        ∀ more, (run.followedBy f).finish B (first + more) = (start B (f a) after run.limit).finish B more) ∨
      ((∀ a, (run.finish B turns).main ≠ .done a) ∧
        (run.followedBy f).finish B turns = (run.finish B turns).followedBy f) := by
  induction turns generalizing run with
  | zero => exact Or.inr ⟨hlive, rfl⟩
  | succ turns ih =>
    rcases step_followedBy f hlive with ⟨halone, htogether⟩ | ⟨next, halone, hlimit, hends⟩
    · rw [finish_of_step_none halone, finish_of_step_none htogether]
      exact Or.inr ⟨hlive, rfl⟩
    · rcases hends with ⟨a, ha, htogether⟩ | ⟨hwaits, htogether⟩
      · refine Or.inl ⟨1, Nat.succ_le_succ (Nat.zero_le turns), a, next.timeline, ?_, fun more => ?_⟩
        · rw [finish_of_step halone, ← hlimit, ← ha]
          rfl
        · rw [Nat.add_comm, finish_of_step htogether]
      · rw [finish_of_step halone, finish_of_step htogether]
        rcases ih hwaits with ⟨first, hfirst, a, after, hended, hrest⟩ | hgoing
        · refine Or.inl ⟨first + 1, Nat.succ_le_succ hfirst, a, after, ?_, fun more => ?_⟩
          · rw [finish_of_step halone, hended, hlimit]
          · rw [Nat.add_right_comm, finish_of_step htogether, hrest, hlimit]
        · exact Or.inr hgoing

/-- A run of both is a run of the first until that has ended, and from then on a run of the second. -/
theorem finish_bind (p : Activity S α) (f : α → Activity S β) (tl : Timeline S B.World) (limit : Option Nat)
    (turns : Nat) :
    (∃ first ≤ turns, ∃ a after, (start B p tl limit).finish B first = ⟨.done a, after, limit⟩ ∧
        ∀ more, (start B (bind p f) tl limit).finish B (first + more) =
          (start B (f a) after limit).finish B more) ∨
      ((∀ a, ((start B p tl limit).finish B turns).main ≠ .done a) ∧
        (start B (bind p f) tl limit).finish B turns =
          ((start B p tl limit).finish B turns).followedBy f) := by
  rcases start_bind p f tl limit with ⟨a, after, hended, hnext⟩ | ⟨hwaits, hnext⟩
  · refine Or.inl ⟨0, Nat.zero_le turns, a, after, hended, fun more => ?_⟩
    rw [hnext, Nat.zero_add]
  · rw [hnext]
    exact finish_followedBy f turns hwaits

/-- Both have ended only when the first has, and then the second as well. -/
theorem finish_bind_done {p : Activity S α} {f : α → Activity S β} {tl last : Timeline S B.World}
    {limit : Option Nat} {turns : Nat} {b : β}
    (h : (start B (bind p f) tl limit).finish B turns = ⟨.done b, last, limit⟩) :
    ∃ first a after, (start B p tl limit).finish B first = ⟨.done a, after, limit⟩ ∧
      (∀ more, (start B (bind p f) tl limit).finish B (first + more) =
        (start B (f a) after limit).finish B more) ∧
      ∃ more, (start B (f a) after limit).finish B more = ⟨.done b, last, limit⟩ := by
  rcases finish_bind p f tl limit turns with ⟨first, hfirst, a, after, hended, hrest⟩ | ⟨hwaits, hgoing⟩
  · refine ⟨first, a, after, hended, hrest, turns - first, ?_⟩
    rw [← hrest, Nat.add_sub_cancel' hfirst, h]
  · have hmain : bind ((start B p tl limit).finish B turns).main f = .done b :=
      congrArg Run.main (hgoing.symm.trans h)
    cases hp : ((start B p tl limit).finish B turns).main with
    | done a => exact absurd hp (hwaits a)
    | ask r ws duties next stop =>
      rw [hp] at hmain
      cases hmain

theorem finish_limit (turns : Nat) (run : Run S B.World α) : (run.finish B turns).limit = run.limit := by
  induction turns generalizing run with
  | zero => rfl
  | succ turns ih =>
    rcases hstep : run.step B with _ | next
    · rw [finish_of_step_none hstep]
    · rw [finish_of_step hstep, ih, step_limit hstep]

end Run

/-- An activity that was run to its end has ended in some turn, and then the background went on. -/
theorem Timeline.exists_finish_of_run {budget : Nat} {p : Activity S α} {tl after : Timeline S B.World} {a : α}
    (h : Timeline.run B budget p tl = (some a, after)) :
    ∃ last, (Run.start B p tl none).finish B budget = ⟨.done a, last, none⟩ ∧
      after = last.settle B budget := by
  have hlimit : ((Run.start B p tl none).finish B budget).limit = none := Run.finish_limit budget _
  unfold Timeline.run at h
  revert h hlimit
  generalize (Run.start B p tl none).finish B budget = run
  rintro h hlimit
  obtain ⟨main, last, limit⟩ := run
  obtain rfl : limit = none := hlimit
  cases main with
  | done a' =>
    obtain ⟨hsame, rfl⟩ := Prod.mk.inj h
    obtain rfl : a' = a := Option.some.inj hsame
    exact ⟨last, rfl, rfl⟩
  | ask r ws duties next stop => cases h

end Wayfind.Activity
