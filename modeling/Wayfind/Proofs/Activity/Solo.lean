/-
Activities that run alone.

Where nobody else is there, the world is the same after a sleep as before it, so what an
activity does to the world is read off it question by question, as for a prompt one; but
here it may sleep wherever the world is as it should be, and may wait without end.
Whoever runs such an activity finds the world so at every moment (`Run.Solo.finish`).
-/
import Wayfind.Locator.Interrupt
import Wayfind.Proofs.Activity.Prompt

namespace Wayfind.Activity

variable {S : Signature} {B : Backend S} {α β : Type}

/-- The activity asks nothing but the world and the time and sets nothing off; whenever it waits the
world is as it should be, and it ends as it should. -/
def Solo (B : Backend S) (I : B.World → Prop) (Q : α → B.World → Prop) :
    Activity S α → B.World → Prop
  | .done a, w => Q a w
  | .ask (.query q) _ _ next _, w =>
    (B.answer q w).2.2 = [] ∧ Solo B I Q (next (B.answer q w).1) (B.answer q w).2.1
  | .ask .clock _ _ next _, w => ∀ time, Solo B I Q (next time) w
  | .ask (.sleepUntil _) ws _ next _, w => I w ∧ ws = [] ∧ Solo B I Q (next ()) w
  | .ask .forever ws _ _ _, w => I w ∧ ws = []
  | .ask _ _ _ _ _, _ => False

variable {I : B.World → Prop} {Q : α → B.World → Prop} {w : B.World}

theorem Solo.bind {Q : β → B.World → Prop} {p : Activity S α} {f : α → Activity S β}
    (h : Solo B I (fun a v => Solo B I Q (f a) v) p w) : Solo B I Q (bind p f) w := by
  induction p generalizing w with
  | done a => exact h
  | ask r ws duties next stop ihn ihs =>
    cases r with
    | query q => exact ⟨h.1, ihn _ h.2⟩
    | clock => exact fun time => ihn time (h time)
    | sleepUntil time => exact ⟨h.1, h.2.1, ihn () h.2.2⟩
    | forever => exact h
    | _ => exact absurd h id

theorem Prompt.solo {p : Activity S α} (h : Prompt B I Q p w) : Solo B I Q p w := by
  induction p generalizing w with
  | done a => exact h
  | ask r ws duties next stop ihn ihs =>
    cases r with
    | query q => exact ⟨h.1, ihn _ h.2⟩
    | clock => exact fun time => ihn time (h time)
    | sleepUntil time => exact ⟨h.1, h.2.1, ihn () h.2.2⟩
    | _ => exact absurd h id

/-- A prompt activity, followed by one that runs alone. -/
theorem Prompt.thenSolo {Q : β → B.World → Prop} {p : Activity S α} {f : α → Activity S β}
    (h : Prompt B I (fun a v => Solo B I Q (f a) v) p w) : Solo B I Q (bind p f) w :=
  h.solo.bind

/-- Whoever waits without end ends as is wished. -/
theorem solo_never (h : I w) : Solo B I Q Activity.never w := ⟨h, rfl⟩

section Action

open PageSide (Action)

variable {P : PageSide} {K : Backend P.signature} {I : K.World → Prop} {w : K.World}

theorem Prompt.thenSoloAction {Q : Except Error β → K.World → Prop} {a : P.Action α}
    {f : α → P.Action β}
    (h : Prompt K I (fun r v => match r with
      | .ok x => Solo K I Q (f x).outcome v
      | .error e => Q (.error e) v) a.outcome w) : Solo K I Q (a >>= f).outcome w := by
  rw [outcome_bind]
  refine Prompt.thenSolo (h.mono fun r v hr => ?_)
  cases r <;> exact hr

theorem solo_clock {Q : Except Error β → K.World → Prop} {f : Nat → P.Action β}
    (h : ∀ time, Solo K I Q (f time).outcome w) : Solo K I Q (Action.clock >>= f).outcome w := h

theorem solo_sleep {Q : Except Error β → K.World → Prop} {ms : Nat} {f : Unit → P.Action β} (hI : I w)
    (h : Solo K I Q (f ()).outcome w) : Solo K I Q (Action.sleep ms >>= f).outcome w :=
  fun _ => ⟨hI, rfl, h⟩

end Action

/-! ### Runs -/

variable {tl : Timeline S B.World} {p : Activity S α}

/-- The activity has ended, or waits in a world that is as it should be. -/
def Pauses (I : B.World → Prop) (p : Activity S α) (w : B.World) : Prop :=
  (∃ a, p = .done a) ∨ Timeline.watched p = [] ∧ I w

theorem Solo.advance (h : Solo B I Q p tl.world) :
    ∃ p' v, Timeline.advance B p tl = (p', { tl with world := v }) ∧ Solo B I Q p' v ∧ Pauses I p' v := by
  induction p generalizing tl with
  | done a => exact ⟨.done a, tl.world, rfl, h, .inl ⟨a, rfl⟩⟩
  | ask r ws duties next stop ihn ihs =>
    cases r with
    | query q =>
      obtain ⟨hjobs, hnext⟩ := h
      obtain ⟨p', v, hv, hQ⟩ :=
        @ihn (B.answer q tl.world).1 { tl with world := (B.answer q tl.world).2.1 } hnext
      refine ⟨p', v, ?_, hQ⟩
      simp only [Timeline.advance, Timeline.perform, hjobs]
      exact hv
    | clock => exact ihn tl.clock (h tl.clock)
    | sleepUntil time =>
      by_cases htime : time ≤ tl.clock
      · obtain ⟨p', v, hv, hQ⟩ := @ihn () tl h.2.2
        refine ⟨p', v, ?_, hQ⟩
        simp only [Timeline.advance, Timeline.perform, if_pos htime]
        exact hv
      · refine ⟨.ask (.sleepUntil time) ws duties next stop, tl.world, ?_, h, .inr ⟨h.2.1, h.1⟩⟩
        simp only [Timeline.advance, Timeline.perform, if_neg htime]
    | forever => exact ⟨.ask .forever ws duties next stop, tl.world, rfl, h, .inr ⟨h.2, h.1⟩⟩
    | _ => exact absurd h id

/-- Nobody is there but the foreground, which runs alone. -/
structure Run.Solo (I : B.World → Prop) (Q : α → B.World → Prop) (run : Run S B.World α) : Prop where
  ready : run.timeline.ready = []
  tasks : run.timeline.tasks = []
  main : Activity.Solo B I Q run.main run.timeline.world
  pauses : Pauses I run.main run.timeline.world

theorem Solo.start (h : Solo B I Q p tl.world) (hready : tl.ready = []) (htasks : tl.tasks = [])
    (limit : Option Nat) : (Run.start B p tl limit).Solo I Q := by
  obtain ⟨p', v, hv, hmain, hpauses⟩ := h.advance
  unfold Run.start
  rw [hv]
  exact ⟨hready, htasks, hmain, hpauses⟩

theorem Run.Solo.step {run next : Run S B.World α} (h : run.Solo I Q)
    (hstep : run.step B = some next) : next.Solo I Q := by
  unfold Run.step at hstep
  rw [h.ready] at hstep
  dsimp only at hstep
  split at hstep
  · exact absurd hstep nofun
  · rename_i hdone
    split at hstep
    · have hwatched : Timeline.watched run.main = [] := by
        rcases h.pauses with ⟨a, ha⟩ | ⟨hwatched, -⟩
        · exact absurd (by rw [Run.isDone, ha]) hdone
        · exact hwatched
      obtain rfl := Option.some.inj hstep
      rw [resume_of_watched_nil hwatched]
      exact Activity.Solo.start h.main h.ready h.tasks run.limit
    · split at hstep
      · exact absurd hstep nofun
      · split at hstep
        · rename_i time _
          obtain rfl := Option.some.inj hstep
          -- nobody is woken, and the world does not change
          refine ⟨?_, h.tasks, h.main, h.pauses⟩
          simp [Timeline.moveClock, Timeline.wake, Timeline.tasksWhere, h.tasks, h.ready]
        · exact absurd hstep nofun

theorem Run.Solo.finish {run : Run S B.World α} (h : run.Solo I Q) (budget : Nat) :
    (run.finish B budget).Solo I Q := by
  induction budget generalizing run with
  | zero => exact h
  | succ budget ih =>
    unfold Run.finish
    split
    · rename_i next hstep
      exact ih (h.step hstep)
    · exact h

/-- At every moment the world is as it should be, or the activity has ended as it should. -/
theorem Run.Solo.world {run : Run S B.World α} (h : run.Solo I Q) :
    I run.timeline.world ∨ ∃ a, run.main = .done a ∧ Q a run.timeline.world := by
  rcases h.pauses with ⟨a, ha⟩ | ⟨-, hI⟩
  · have hmain := h.main
    rw [ha] at hmain
    exact .inr ⟨a, ha, hmain⟩
  · exact .inl hI

/-- An activity that ran alone to its end ended as it should, and left nobody behind. -/
theorem Solo.run (h : Solo B I Q p tl.world) (hready : tl.ready = []) (htasks : tl.tasks = [])
    {budget : Nat} {a : α} {after : Timeline S B.World}
    (hrun : tl.run B budget p = (some a, after)) :
    Q a after.world ∧ after.ready = [] ∧ after.tasks = [] := by
  have hlast := (h.start hready htasks none).finish budget
  unfold Timeline.run at hrun
  revert hrun hlast
  generalize Run.finish B budget (Run.start B p tl none) = last
  obtain ⟨main, tl', limit⟩ := last
  intro hrun hlast
  cases main with
  | done a' =>
    obtain ⟨ha, hafter⟩ := Prod.mk.inj hrun
    rw [settle_of_still hlast.ready] at hafter
    obtain rfl := Option.some.inj ha
    exact hafter ▸ ⟨hlast.main, hlast.ready, hlast.tasks⟩
  | ask r ws duties next stop => exact absurd (Prod.mk.inj hrun).1 nofun

end Wayfind.Activity
