/-
Dropping a foreground activity.

Who is dropped fulfils the duties of the request it is suspended at, and is no more.
Where these duties settle its share, the shares of the others still fit together
(`Kept.drop`).
-/
import Wayfind.Proofs.Activity.Crowd
import Wayfind.Proofs.Activity.Steady

namespace Wayfind.Activity

open Timeline (advance resume drop)
open Relation (ReflTransGen)

variable {S : Signature} {B : Backend S} {ι α : Type} {D : Discipline B}
  {program : ι → Activity S α} {Keeps : α → D.Share → Prop}
  {Ends : ι → Nat → α → Timeline S B.World → Prop}

/-- Duties are fulfilled at once. -/
theorem advance_fulfilThen (duties : List (Duty S)) (tl : Timeline S B.World) :
    (advance B (fulfilThen (.done ()) duties) tl).1 = .done () := by
  induction duties generalizing tl with
  | nil => rfl
  | cons duty rest ih => cases duty <;> exact ih _

/-- Who may be suspended in the foreground has duties that settle its share. -/
def Discipline.Settles (D : Discipline B) : Prop :=
  ∀ {share r watched duties}, D.Parked .foreground share r watched duties →
    ∀ {tl others}, D.Holds tl (share ::ₘ others) →
      Runs D .foreground D.leaves (fulfilThen (.done ()) duties) others tl

/-- Who is dropped before its end gives no outcome, and the background goes on. -/
theorem giveUp_of_pending {p : Activity S α} (hp : ∀ a, p ≠ .done a) (budget : Nat)
    (tl : Timeline S B.World) :
    Timeline.giveUp B budget p tl = (none, Timeline.settle B budget (drop B p tl)) := by
  cases p with
  | done a => exact absurd rfl (hp a)
  | ask r watched duties next stop => rfl

/-- Who is in the foreground has not ended. -/
theorem Kept.pending {c : Crowd B ι α} (h : Kept D Keeps Ends c) {m : Member ι S α}
    (hm : m ∈ c.running) (a : α) : m.activity ≠ .done a := by
  obtain ⟨tasks, running, ended, -, hrunning, -, -, -, hrun, -⟩ := h.shares
  rw [← hrunning] at hm
  obtain ⟨x, hx, rfl⟩ := List.mem_map.mp hm
  intro hdone
  have hsuspended := hrun x hx
  rw [hdone] at hsuspended
  exact hsuspended

/-- The crowd after a foreground activity in it was dropped. -/
def Crowd.without (c : Crowd B ι α) (before after : List (Member ι S α)) (m : Member ι S α) :
    Crowd B ι α :=
  { c with timeline := drop B m.activity c.timeline, running := before ++ after }

theorem Kept.drop (hs : Sound D program Keeps Ends) (hD : D.Settles) {c : Crowd B ι α}
    (h : Kept D Keeps Ends c) {before after : List (Member ι S α)} {m : Member ι S α}
    (hmem : c.running = before ++ m :: after) : Kept D Keeps Ends (c.without before after m) := by
  obtain ⟨tasks, running, ended, htasks, hrunning, hended, hholds, hback, hrun, hend⟩ := h.shares
  rw [hmem] at hrunning
  obtain ⟨first, rest, rfl, hfirst, hrest⟩ := List.map_eq_append_iff.mp hrunning
  obtain ⟨⟨m', share⟩, last, rfl, rfl, hlast⟩ := List.map_eq_cons_iff.mp hrest
  have hm := hrun (m', share) (by simp)
  have hheld : D.Holds c.timeline (share ::ₘ (↑(tasks.map Prod.snd) +
      (↑((first ++ last).map Prod.snd) + ↑(ended.map Prod.snd)))) := by
    rw [← Multiset.add_cons, ← Multiset.cons_add, ← coe_map_insert first last (m', share)]
    exact hholds
  obtain ⟨who, began, p⟩ := m'
  cases p with
  | done a => exact absurd hm id
  | ask r watched duties next stop =>
    have hreach := advance_runs h.orderly (hD hm.1 hheld)
    obtain ⟨tasks', new, htasks', hnew, hback', hcase⟩ := hreach.background hs htasks hback
    rw [advance_fulfilThen] at hcase
    rcases hcase with ⟨_, _, hholds'⟩ | ⟨_, hsuspended, -⟩
    · refine ⟨hreach.orderly, tasks', first ++ last, ended, htasks', ?_, hended, ?_, hback', ?_, hend⟩
      · rw [List.map_append, hfirst, hlast]
        rfl
      · rw [hnew, add_comm (tasks.map Prod.snd : Multiset D.Share), add_assoc]
        exact hholds'
      · intro x hx
        refine (hrun x ?_).later hreach.grown.later
        rcases List.mem_append.mp hx with hx | hx
        · exact List.mem_append_left _ hx
        · exact List.mem_append_right _ (List.mem_cons_of_mem _ hx)
    · exact absurd hsuspended id

/-- One turn of somebody, a wait, or somebody is dropped. -/
inductive Crowd.Turn (B : Backend S) (program : ι → Activity S α) : Crowd B ι α → Crowd B ι α → Prop
  | step {c c' : Crowd B ι α} (h : Crowd.Step B program c c') : Turn B program c c'
  | drop {c : Crowd B ι α} (before after : List (Member ι S α)) (m : Member ι S α)
      (hmem : c.running = before ++ m :: after) : Turn B program c (c.without before after m)

theorem Crowd.turns_of_steps {c c' : Crowd B ι α} (h : ReflTransGen (Crowd.Step B program) c c') :
    ReflTransGen (Crowd.Turn B program) c c' :=
  h.lift id fun _ _ hstep => .step hstep

/-- The background is tame, and nobody in the foreground makes a request that is not permitted. -/
structure Crowd.Tame (permits : Request S → Prop) (mild : S.Query → Prop) (c : Crowd B ι α) : Prop where
  background : c.timeline.Tame permits mild
  foreground : ∀ m ∈ c.running, Asks permits m.activity

theorem Crowd.Tame.place {permits : Request S → Prop} {mild : S.Query → Prop} {c : Crowd B ι α} {who : ι}
    {began : Nat} {p : Activity S α} {tl : Timeline S B.World} (hp : Asks permits p)
    (ht : tl.Tame permits mild) (hrunning : ∀ m ∈ c.running, Asks permits m.activity) :
    (c.place who began (p, tl)).Tame permits mild := by
  cases p with
  | done a => exact ⟨ht, hrunning⟩
  | ask r ws duties next stop =>
    refine ⟨ht, fun m hm => ?_⟩
    rcases List.mem_append.mp hm with hm | hm
    · exact hrunning m hm
    · rw [List.mem_singleton.mp hm]
      exact hp

/-- Whatever happens, and whoever is dropped, the background stays tame. -/
theorem Crowd.Turn.tame {permits : Request S → Prop} {mild : S.Query → Prop} (hB : Tames B permits mild)
    (hprogram : ∀ who, Asks permits (program who)) {c c' : Crowd B ι α}
    (hturn : Crowd.Turn B program c c') (h : c.Tame permits mild) : c'.Tame permits mild := by
  have hothers : ∀ {before after : List (Member ι S α)} {m : Member ι S α}, c.running = before ++ m :: after →
      Asks permits m.activity ∧ ∀ other ∈ before ++ after, Asks permits other.activity := by
    intro before after m hmem
    refine ⟨h.foreground m (hmem ▸ List.mem_append_right before List.mem_cons_self), fun other hother => ?_⟩
    refine h.foreground other (hmem ▸ ?_)
    rcases List.mem_append.mp hother with hother | hother
    · exact List.mem_append_left _ hother
    · exact List.mem_append_right _ (List.mem_cons_of_mem _ hother)
  cases hturn with
  | step hstep =>
    cases hstep with
    | task id hready =>
      have hqueued : Timeline.Tame permits mild (B := B)
          { c.timeline with ready := c.timeline.ready.erase id } := h.background
      exact ⟨(runTask_tame (J := fun _ => True) hB (fun _ _ _ _ => trivial) hqueued trivial id).1, h.foreground⟩
    | enter who =>
      exact .place (advance_asks (hprogram who)) (advance_background hB (hprogram who) h.background) h.foreground
    | go before after m hmem hresume =>
      obtain ⟨hm, hrest⟩ := hothers hmem
      exact .place (resume_asks hm) (resume_background hB hm h.background) hrest
    | wait time => exact ⟨h.background, h.foreground⟩
  | drop before after m hmem =>
    obtain ⟨hm, hrest⟩ := hothers hmem
    exact ⟨drop_background hB hm h.background, hrest⟩

theorem Crowd.tame_of_turns {permits : Request S → Prop} {mild : S.Query → Prop} (hB : Tames B permits mild)
    (hprogram : ∀ who, Asks permits (program who)) {c c' : Crowd B ι α}
    (hturns : ReflTransGen (Crowd.Turn B program) c c') (h : c.Tame permits mild) : c'.Tame permits mild := by
  induction hturns with
  | refl => exact h
  | tail _ hturn ih => exact hturn.tame hB hprogram ih

/-- Whatever happens, and whoever is dropped, the shares fit together. -/
theorem Kept.turns (hs : Sound D program Keeps Ends) (hD : D.Settles) {c c' : Crowd B ι α}
    (h : Kept D Keeps Ends c) (hturns : ReflTransGen (Crowd.Turn B program) c c') :
    Kept D Keeps Ends c' := by
  induction hturns with
  | refl => exact h
  | tail _ hturn ih =>
    cases hturn with
    | step hstep => exact ih.step hs hstep
    | drop before after m hmem => exact ih.drop hs hD hmem

end Wayfind.Activity
