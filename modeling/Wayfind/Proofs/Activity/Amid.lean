/-
One activity amid others.

Between any two requests of an activity anybody else may ask the world anything.  `Amid` tells of one
activity among others: what it has asked so far, the world as it is now, and what is left of the activity.
What it asks is a walk (`Amid.walk`); of the worlds it finds it can rely on what every answer keeps
(`Amid.ages`); and every run is such, the background being the others (`amid_of_run`).
-/
import Wayfind.Proofs.Activity.Interleaving

namespace Wayfind.Activity

open Relation (ReflTransGen)
open Timeline (advance resume runTask settle)

variable {S : Signature} {B : Backend S} {α : Type}

/-- The activity, begun in such a world, has asked so much; the world is as it is now, and this is left of
the activity.  Others ask the world what they like. -/
inductive Amid (B : Backend S) (start : B.World) (p : Activity S α) :
    List (Moment S.Query B.World) → B.World → Activity S α → Prop
  | begins : Amid B start p [] start p
  | asks {own : List (Moment S.Query B.World)} {w v : B.World} {r : Request S} {watched : List Token}
      {duties : List (Duty S)} {next : r.Answer → Activity S α}
      {stop : (t : Token) → t ∈ watched → Activity S α} {a : r.Answer}
      (h : Amid B start p own w (.ask r watched duties next stop)) (hleads : r.Leads B w a v) :
      Amid B start p (own ++ r.moments w) v (next a)
  | stops {own : List (Moment S.Query B.World)} {w : B.World} {r : Request S} {watched : List Token}
      {duties : List (Duty S)} {next : r.Answer → Activity S α}
      {stop : (t : Token) → t ∈ watched → Activity S α}
      (h : Amid B start p own w (.ask r watched duties next stop)) (t : Token) (ht : t ∈ watched) :
      Amid B start p own w (stop t ht)
  | others {own : List (Moment S.Query B.World)} {w : B.World} {q : Activity S α}
      (h : Amid B start p own w q) (query : S.Query) : Amid B start p own (B.answer query w).2.1 q

namespace Amid

variable {start w : B.World} {p q : Activity S α} {own : List (Moment S.Query B.World)}

theorem walk (h : Amid B start p own w q) : Walk B p own q := by
  induction h with
  | begins => exact .stays p
  | @asks _ w _ r _ _ _ _ _ _ hleads ih =>
    have hstep := ih.trans (.asks hleads (.stays _))
    rwa [List.append_nil] at hstep
  | stops _ t ht ih =>
    have hstep := ih.trans (.stops t ht (.stays _))
    rwa [List.append_nil] at hstep
  | others _ query ih => exact ih

/-- Worlds only age in a way that every answer keeps, whoever asks. -/
theorem ages {R : B.World → B.World → Prop} (h : Amid B start p own w q) (hrefl : ∀ w, R w w)
    (htrans : ∀ u v w, R u v → R v w → R u w) (hanswer : ∀ q w, R w (B.answer q w).2.1) :
    R start w ∧ Aged R start own ∧ ∀ m ∈ own, R m.after w := by
  induction h with
  | begins => exact ⟨hrefl _, ⟨nofun, List.Pairwise.nil⟩, nofun⟩
  | @asks own w v r _ _ _ _ a _ hleads ih =>
    obtain ⟨hnow, hrecord, hsince⟩ := ih
    cases r with
    | query query =>
      obtain ⟨-, rfl⟩ := hleads
      have hage : R w (B.answer query w).2.1 := hanswer query w
      refine ⟨htrans _ _ _ hnow hage, ⟨fun m hm => ?_, ?_⟩, fun m hm => ?_⟩
      · rcases List.mem_append.mp hm with hm | hm
        · exact hrecord.first m hm
        · rwa [List.mem_singleton.mp hm]
      · refine List.pairwise_append.mpr ⟨hrecord.order, List.pairwise_singleton _ _, fun m hm m' hm' => ?_⟩
        rw [List.mem_singleton.mp hm']
        exact hsince m hm
      · rcases List.mem_append.mp hm with hm | hm
        · exact htrans _ _ _ (hsince m hm) hage
        · rw [List.mem_singleton.mp hm]
          exact hrefl _
    | _ =>
      obtain rfl : v = w := hleads
      simp only [Request.moments, List.append_nil]
      exact ⟨hnow, hrecord, hsince⟩
  | stops _ _ _ ih => exact ih
  | @others _ w _ _ query ih =>
    have hage : R w (B.answer query w).2.1 := hanswer query w
    exact ⟨htrans _ _ _ ih.1 hage, ih.2.1, fun m hm => htrans _ _ _ (ih.2.2 m hm) hage⟩

end Amid

/-! ### Runs -/

/-- One world becomes another as somebody asks it something. -/
def Becomes (B : Backend S) : B.World → B.World → Prop :=
  ReflTransGen fun w v => ∃ query : S.Query, v = (B.answer query w).2.1

theorem Request.Leads.becomes {r : Request S} {w v : B.World} {a : r.Answer} (h : r.Leads B w a v) :
    Becomes B w v := by
  cases r with
  | query query => exact .single ⟨query, h.2⟩
  | _ =>
    obtain rfl : v = w := h
    exact .refl

theorem advance_becomes (p : Activity S α) (tl : Timeline S B.World) :
    Becomes B tl.world (advance B p tl).2.world := by
  induction p generalizing tl with
  | done a => exact .refl
  | ask r watched duties next stop ihn ihs =>
    rcases hp : Timeline.perform B tl r with _ | ⟨a, after⟩
    · simp only [advance, hp]
      exact .refl
    · simp only [advance, hp]
      exact (perform_leads hp).becomes.trans (ihn a after)

theorem resume_becomes (p : Activity S α) (tl : Timeline S B.World) :
    Becomes B tl.world (resume B p tl).2.world := by
  rw [Timeline.resume_eq]
  exact advance_becomes _ tl

theorem runTask_becomes (tl : Timeline S B.World) (id : Nat) :
    Becomes B tl.world (runTask B tl id).world := by
  rcases hfind : tl.tasks.find? (·.id == id) with _ | task
  · rw [Timeline.runTask_of_find_none hfind]
    exact .refl
  · rw [(Timeline.runTask_rejoined hfind Prod.mk.eta.symm).world]
    exact resume_becomes task.activity (tl.besides id)

namespace Amid

variable {start w : B.World} {p q : Activity S α} {own : List (Moment S.Query B.World)}

theorem becomes {v : B.World} (h : Amid B start p own w q) (hbecomes : Becomes B w v) :
    Amid B start p own v q := by
  induction hbecomes with
  | refl => exact h
  | tail _ hasked ih =>
    obtain ⟨query, rfl⟩ := hasked
    exact ih.others query

/-- It goes on as far as possible. -/
theorem advance {tl : Timeline S B.World} (h : Amid B start p own tl.world q) :
    Amid B start p (own ++ tl.questions B q) (advance B q tl).2.world (Timeline.advance B q tl).1 := by
  induction q generalizing own tl with
  | done a => rwa [Timeline.questions, List.append_nil]
  | ask r watched duties next stop ihn ihs =>
    rcases hp : Timeline.perform B tl r with _ | ⟨a, after⟩
    · simp only [Timeline.advance, Timeline.questions, hp, List.append_nil]
      exact h
    · simp only [Timeline.advance, Timeline.questions, hp, ← List.append_assoc]
      exact ihn a (h.asks (perform_leads hp))

theorem onward {tl : Timeline S B.World} (h : Amid B start p own tl.world q) :
    Amid B start p own tl.world (Timeline.onward tl q) := by
  cases q with
  | done a => exact h
  | ask r watched duties next stop =>
    rcases hstop : watched.find? tl.isCancelled with _ | t
    · rwa [Timeline.onward_of_find_none hstop]
    · rw [Timeline.onward_interrupted hstop]
      exact h.stops t (List.mem_of_find?_eq_some hstop)

/-- A turn of a run is the foreground's, or somebody else's. -/
theorem step {run next : Run S B.World α} (h : Amid B start p own run.timeline.world run.main)
    (hstep : run.step B = some next) :
    ∃ more, Amid B start p (own ++ more) next.timeline.world next.main := by
  unfold Run.step at hstep
  split at hstep
  · rename_i id rest hready
    obtain rfl := Option.some.inj hstep
    refine ⟨[], ?_⟩
    rw [List.append_nil]
    exact h.becomes (runTask_becomes { run.timeline with ready := rest } id)
  · split at hstep
    · cases hstep
    · split at hstep
      · have hgone : Amid B start p _ (resume B run.main run.timeline).2.world
            (resume B run.main run.timeline).1 := (Timeline.resume_eq run.main run.timeline) ▸ h.onward.advance
        obtain rfl := Option.some.inj hstep
        exact ⟨_, hgone⟩
      · split at hstep
        · cases hstep
        · split at hstep
          · obtain rfl := Option.some.inj hstep
            refine ⟨[], ?_⟩
            rw [List.append_nil]
            exact h
          · cases hstep

theorem finish (turns : Nat) {run : Run S B.World α}
    (h : Amid B start p own run.timeline.world run.main) :
    ∃ more, Amid B start p (own ++ more) (run.finish B turns).timeline.world (run.finish B turns).main := by
  induction turns generalizing own run with
  | zero => exact ⟨[], (List.append_nil own).symm ▸ h⟩
  | succ turns ih =>
    rcases hstep : run.step B with _ | next
    · rw [Run.finish_of_step_none hstep]
      exact ⟨[], (List.append_nil own).symm ▸ h⟩
    · rw [Run.finish_of_step hstep]
      obtain ⟨more, hmore⟩ := h.step hstep
      obtain ⟨last, hlast⟩ := ih hmore
      exact ⟨more ++ last, by rwa [← List.append_assoc]⟩

end Amid

/-- What is left in the background goes on when the foreground has ended. -/
theorem settle_becomes (budget : Nat) (tl : Timeline S B.World) :
    Becomes B tl.world (settle B budget tl).world := by
  have hturn : ∀ (turns : Nat) (run : Run S B.World Unit), run.main = .done () →
      Becomes B run.timeline.world (run.finish B turns).timeline.world := by
    intro turns
    induction turns with
    | zero => exact fun run _ => .refl
    | succ turns ih =>
      intro run hdone
      rcases hready : run.timeline.ready with _ | ⟨id, rest⟩
      · have hnone : run.step B = none := by simp [Run.step, hready, Run.isDone, hdone]
        rw [Run.finish_of_step_none hnone]
        exact .refl
      · rw [Run.finish_of_step (Run.step_of_ready hready)]
        exact ReflTransGen.trans (runTask_becomes { run.timeline with ready := rest } id)
          (ih { run with timeline := runTask B { run.timeline with ready := rest } id } hdone)
  exact hturn budget ⟨Activity.done (), tl, none⟩ rfl

/-- Whoever is run to the end has gone its way amid the background. -/
theorem amid_of_run {budget : Nat} {p : Activity S α} {tl after : Timeline S B.World} {a : α}
    (hrun : tl.run B budget p = (some a, after)) : ∃ own, Amid B tl.world p own after.world (.done a) := by
  have hbegins : Amid B tl.world p [] tl.world p := .begins
  have hstart : Amid B tl.world p _ (Run.start B p tl none).timeline.world (Run.start B p tl none).main :=
    hbegins.advance
  obtain ⟨more, hlast⟩ := hstart.finish budget
  unfold Timeline.run at hrun
  revert hrun hlast
  generalize Run.finish B budget (Run.start B p tl none) = last
  obtain ⟨main, tl', limit⟩ := last
  intro hrun hlast
  cases main with
  | done a' =>
    obtain ⟨ha, rfl⟩ := Prod.mk.inj hrun
    obtain rfl := Option.some.inj ha
    exact ⟨_, hlast.becomes (settle_becomes budget tl')⟩
  | ask r watched duties next stop => exact absurd (Prod.mk.inj hrun).1 nofun

end Wayfind.Activity
