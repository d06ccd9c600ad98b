/-
What a race returns, and what becomes of the other handles.

An operation on a race returns the handle that a branch has sent first, or the last failure when all
have failed.  No other handle is left: whether it lay in the inbox when the race returned or when
it was dropped, came later, or was turned away, it is released, once.
-/
import Wayfind.Proofs.Simulation.Origin
import Wayfind.Proofs.Simulation.Verdict

namespace Wayfind.Simulation

open Activity (Token Timeline Crowd Kept Sound Tale Exchange sentTo offeredIn)
open Activity.Timeline (resume canResume runTask)
open Keeping (Keeps keeping)
open Relation (ReflTransGen)

variable {patience : Nat}

/-! ### The beginning -/

/-- The timeline of a scene, with a page that remembers what it is asked. -/
def Scene.recorded (patience : Nat) (s : Scene) : Timeline side.signature (recording patience).World :=
  (s.timeline patience).withRecord []

theorem recorded_eq (s : Scene) :
    s.recorded patience = (Keeping.opening (K := recording patience) (s.page, []) s.clock
      s.cancelled).forkAll (recording patience) (s.events.map Event.job) := by
  set start : Timeline side.signature (recording patience).World :=
    Keeping.opening (K := recording patience) (s.page, []) s.clock s.cancelled
  have hforget := Timeline.forkAll_forget start (s.events.map Event.job)
  have hworld : (start.forkAll (recording patience) (s.events.map Event.job)).world = (s.page, []) :=
    Activity.Timeline.forkAll_world _ _
  rw [← Timeline.withRecord_forget (start.forkAll (recording patience) (s.events.map Event.job)),
    ← hforget, hworld]
  rfl

theorem inboxes_recorded (s : Scene) : (s.recorded patience).inboxes.size = 0 := by
  have hinboxes : (s.timeline patience).inboxes = #[] := Timeline.forkAll_inboxes _ _
  exact congrArg Array.size hinboxes

/-- Nobody sends anything before an operation is started. -/
theorem traffic_recorded_scene (s : Scene) (k : Activity.Inbox) : traffic k (s.recorded patience) ≤ 0 := by
  rw [← traffic_forget]
  exact traffic_scene s k

/-- What goes on in the background makes the events of the scene happen. -/
theorem bag_recorded (s : Scene) :
    (s.recorded patience).bag = (s.events.map Event.job).map (backend patience).start := by
  show (s.timeline patience).bag = _
  unfold Timeline.bag Scene.timeline
  rw [Timeline.forkAll_activities]
  rfl

theorem traced_recorded (s : Scene) : Traced (s.recorded patience) := by
  refine ⟨fun k m hm => ?_, fun p hp => ?_⟩
  · rw [messages_of_traffic (traffic_recorded_scene s k)] at hm
    exact absurd hm List.not_mem_nil
  · rw [bag_recorded] at hp
    obtain ⟨job, -, rfl⟩ := List.mem_map.mp (Multiset.mem_coe.mp hp)
    exact sends_start patience _ job

/-- What goes on at one instant on a recorded page comes to rest, too. -/
theorem issues_recording : WellFounded (Activity.Issues (recording patience)) := by
  have hpage : WellFounded (Activity.Issues (backend patience)) := issues_page
  refine Subrelation.wf (fun {q p} h => ?_) hpage
  cases h with
  | next a => exact .next a
  | stop t h => exact .stop t h
  | @job r ws duties next stop tl job hjob =>
    have hsame : Timeline.jobsOf (recording patience) tl r =
        Timeline.jobsOf (backend patience) tl.forget r := by
      cases r <;> rfl
    exact .job (hsame ▸ hjob)

/-! ### What is settled -/

/-- The handles that were released until then. -/
abbrev releasedBy (tl : Timeline side.signature (recording patience).World) : Multiset Nat :=
  releasedIn tl.world.2

/-- What an operation on a race has come to when these exchanges have been made. -/
structure Contest.Outcome (c : Contest)
    (crowd : Crowd (recording patience) Unit (Except Error (Except Error Handle × Bool)))
    (log : List (Exchange side.signature)) : Prop where
  /-- It has returned what its branches have decided, and was cancelled by nobody but its own deadline
  or its signal. -/
  returned : ∀ e ∈ crowd.ended, ∃ r cancelled, e.outcome = .ok (r, cancelled) ∧
    ruling c.branches.length (sentTo 0 log) = some r ∧
      (cancelled = true → Overtaken c.timeout c.signal e.began e.timeline)
  /-- As long as it runs nothing is decided, or it can go on and returns that. -/
  running : ∀ m ∈ crowd.running, ∀ r, ruling c.branches.length (sentTo 0 log) = some r ↔
    canResume crowd.timeline m.activity = true ∧
      ∃ cancelled, (resume (recording patience) m.activity crowd.timeline).1 = .done (.ok (r, cancelled))
  /-- When it has returned a failure no branch is left that might send anything. -/
  failed : ∀ e ∈ crowd.ended, ∀ err cancelled, e.outcome = .ok (.error err, cancelled) →
    ∀ task ∈ crowd.timeline.tasks, Silent 0 task.activity
  /-- The page has made what branches have sent, or wanted to. -/
  sent : ∀ h : Handle, .ok h ∈ offeredIn log → h.id ∈ made crowd.timeline
  /-- No handle is released twice. -/
  once : (releasedBy crowd.timeline).Nodup
  /-- The handle of the winner is not released. -/
  kept : ∀ e ∈ crowd.ended, ∀ (h : Handle) cancelled, e.outcome = .ok (.ok h, cancelled) →
    h.id ∉ releasedBy crowd.timeline
  /-- When nobody is in the foreground and the background is at rest, all others are released. -/
  rest : crowd.running = [] → crowd.timeline.ready = [] → ∀ id ∈ made crowd.timeline,
    (∀ e ∈ crowd.ended, ∀ (h : Handle) cancelled, e.outcome = .ok (.ok h, cancelled) → h.id ≠ id) →
      (releasedBy crowd.timeline).count id = 1

section Outcome

variable {s : Scene} {c : Contest}
  {crowd : Crowd (recording patience) Unit (Except Error (Except Error Handle × Bool))}
  {log : List (Exchange side.signature)}

theorem kept_of_tale (h : Tale (recording patience) c.activity (s.recorded patience) crowd log) :
    Kept (keeping (books_recording patience s.page.liveIds).custody 1 s.page.liveIds) (Keeps won)
      (fun _ => c.Ends) crowd := by
  have hs := sound_contest patience c s.page.liveIds
  have hbegins : Kept (keeping (books_recording patience s.page.liveIds).custody 1 s.page.liveIds)
      (Keeps won) (fun _ : Unit => c.Ends) (.init (s.recorded patience)) := by
    rw [recorded_eq]
    exact Keeping.kept_opening (C := (books_recording patience s.page.liveIds).custody) hs
      (w := (s.page, [])) (tallies_nil s.page) s.clock s.cancelled
      (starts_events s (books_recording patience s.page.liveIds)) .refl
  exact hbegins.turns hs (Keeping.keeping_settles (C := (books_recording patience s.page.liveIds).custody)
    1 s.page.liveIds) h.turns

/-- What the callers of a tale were given is left, at all times. -/
theorem tallies_of_tale (h : Tale (recording patience) c.activity (s.recorded patience) crowd log) :
    ∃ rest, Tallies s.page.liveIds crowd.timeline.world
      (s.page.liveIds + ((crowd.ended.map fun e => won e.outcome).sum + rest)) :=
  Keeping.owes_of_kept (C := (books_recording patience s.page.liveIds).custody) (kept_of_tale h)

/-- Nothing else is left when all is at rest. -/
theorem tallies_of_rest (h : Tale (recording patience) c.activity (s.recorded patience) crowd log)
    (hrunning : crowd.running = []) (hready : crowd.timeline.ready = []) :
    Tallies s.page.liveIds crowd.timeline.world
      (s.page.liveIds + (crowd.ended.map fun e => won e.outcome).sum) :=
  Keeping.owes_of_idle (C := (books_recording patience s.page.liveIds).custody) (kept_of_tale h) hready
    hrunning

theorem standing_of_scene (hne : c.branches ≠ [])
    (h : Tale (recording patience) c.activity (s.recorded patience) crowd log) :
    Standing patience 0 c.branches.length crowd log :=
  standing_of_tale hne (inboxes_recorded s) (traffic_recorded_scene s 0) h

theorem returned_of_tale (hne : c.branches ≠ [])
    (h : Tale (recording patience) c.activity (s.recorded patience) crowd log) :
    ∀ e ∈ crowd.ended, ∃ r cancelled, e.outcome = .ok (r, cancelled) ∧
      ruling c.branches.length (sentTo 0 log) = some r ∧
        (cancelled = true → Overtaken c.timeout c.signal e.began e.timeline) := by
  intro e he
  obtain ⟨outcome, cancelled, houtcome, hover⟩ := (kept_of_tale h).ends e he
  refine ⟨outcome, cancelled, houtcome, ?_, hover⟩
  cases standing_of_scene hne h with
  | listens m left hrunning hended hlistens => exact absurd (hended ▸ he) List.not_mem_nil
  | dropped hrunning hended => exact absurd (hended ▸ he) List.not_mem_nil
  | ended e' r cancelled' hrunning hended hreturned hdecided =>
    obtain rfl : e = e' := List.mem_singleton.mp (hended ▸ he)
    obtain ⟨rfl, -⟩ := Prod.mk.inj (Except.ok.inj (houtcome.symm.trans hreturned))
    exact hdecided.ruling

theorem running_of_tale (hne : c.branches ≠ [])
    (h : Tale (recording patience) c.activity (s.recorded patience) crowd log) :
    ∀ m ∈ crowd.running, ∀ r, ruling c.branches.length (sentTo 0 log) = some r ↔
      canResume crowd.timeline m.activity = true ∧ ∃ cancelled,
        (resume (recording patience) m.activity crowd.timeline).1 = .done (.ok (r, cancelled)) := by
  intro m hm r
  cases standing_of_scene hne h with
  | ended e' r cancelled' hrunning => exact absurd (hrunning ▸ hm) List.not_mem_nil
  | dropped hrunning => exact absurd (hrunning ▸ hm) List.not_mem_nil
  | listens m' left hrunning hended hlistens =>
    obtain rfl : m = m' := List.mem_singleton.mp (hrunning ▸ hm)
    have hempty : (s.recorded patience).messages 0 = [] := messages_of_traffic (traffic_recorded_scene s 0)
    rw [Timeline.resume_eq, hlistens.onward_eq]
    rcases hlistens.goes (h.sent_eq hempty hlistens.opened) with
      ⟨r', cancelled, after, hruling, hcan, hadvance, -⟩ | ⟨p, after, left', hruling, hadvance, hlater⟩
    · rw [hruling, hadvance]
      constructor
      · intro heq
        exact ⟨hcan, cancelled, Option.some.inj heq ▸ rfl⟩
      · rintro ⟨-, cancelled', hdone⟩
        injection hdone with hdone
        exact congrArg some (Prod.mk.inj (Except.ok.inj hdone)).1
    · obtain ⟨duties, next, stop, rfl⟩ := hlater.listens.asks hlater.waits
      rw [hruling, hadvance]
      exact ⟨nofun, fun ⟨_, _, hdone⟩ => nomatch hdone⟩

theorem failed_of_tale (hne : c.branches ≠ [])
    (h : Tale (recording patience) c.activity (s.recorded patience) crowd log) :
    ∀ e ∈ crowd.ended, ∀ err cancelled, e.outcome = .ok (.error err, cancelled) →
      ∀ task ∈ crowd.timeline.tasks, Silent 0 task.activity := by
  intro e he err cancelled houtcome task htask
  cases standing_of_scene hne h with
  | listens m left hrunning hended hlistens => exact absurd (hended ▸ he) List.not_mem_nil
  | dropped hrunning hended => exact absurd (hended ▸ he) List.not_mem_nil
  | ended e' r cancelled' hrunning hended hreturned hdecided =>
    obtain rfl : e = e' := List.mem_singleton.mp (hended ▸ he)
    obtain ⟨rfl, -⟩ := Prod.mk.inj (Except.ok.inj (houtcome.symm.trans hreturned))
    exact silent_of_traffic (hdecided.silent err rfl) htask

theorem Tallies.nodup_split {x : Page × List Instant} {left base : Multiset Nat} (h : Tallies base x left) :
    (releasedIn x.2 + left).Nodup :=
  h.released ▸ h.nodup

/-- Callers were given what operations have returned. -/
theorem mem_won {id : Nat} : id ∈ (crowd.ended.map fun e => won e.outcome).sum ↔
    ∃ e ∈ crowd.ended, ∃ (h : Handle) (cancelled : Bool), e.outcome = .ok (.ok h, cancelled) ∧ h.id = id := by
  rw [← Multiset.sum_coe]
  refine Multiset.mem_join.trans ⟨?_, ?_⟩
  · rintro ⟨g, hg, hid⟩
    obtain ⟨e, he, rfl⟩ := List.mem_map.mp (Multiset.mem_coe.mp hg)
    rcases houtcome : e.outcome with err | ⟨err | h, cancelled⟩
    · rw [houtcome] at hid
      exact absurd hid (Multiset.notMem_zero id)
    · rw [houtcome] at hid
      exact absurd hid (Multiset.notMem_zero id)
    · rw [houtcome] at hid
      exact ⟨e, he, h, cancelled, houtcome, (Multiset.mem_singleton.mp hid).symm⟩
  · rintro ⟨e, he, h, cancelled, houtcome, rfl⟩
    refine ⟨won e.outcome, Multiset.mem_coe.mpr (List.mem_map_of_mem he), ?_⟩
    rw [houtcome]
    exact Multiset.mem_singleton_self h.id

/-- However an operation on a race has gone, it has come to what is said of it; and when it has ended
or was dropped the background comes to rest at the same instant. -/
theorem outcome_of_tale (hne : c.branches ≠ [])
    (h : Tale (recording patience) c.activity (s.recorded patience) crowd log) :
    c.Outcome crowd log ∧ ∃ tl more,
      Tale (recording patience) c.activity (s.recorded patience) { crowd with timeline := tl } (log ++ more) ∧
        tl.ready = [] ∧ tl.clock = crowd.timeline.clock := by
  obtain ⟨left, htallies⟩ := tallies_of_tale h
  have hnodup := Multiset.nodup_add.mp htallies.nodup_split
  refine ⟨⟨returned_of_tale hne h, running_of_tale hne h, failed_of_tale hne h, ?_, hnodup.1, ?_, ?_⟩, ?_⟩
  · exact fun handle hsent => (told_of_tale (traced_recorded s) (sends_contest c) h).offered _ hsent
      handle.id (Multiset.mem_singleton_self _)
  · intro e he handle cancelled houtcome hreleased
    have hgiven := mem_won.mpr ⟨e, he, handle, cancelled, houtcome, rfl⟩
    exact Multiset.disjoint_left.mp hnodup.2.2 hreleased
      (Multiset.mem_add.mpr (Or.inr (Multiset.mem_add.mpr (Or.inl hgiven))))
  · intro hrunning hready id hmade hothers
    have hall := (tallies_of_rest h hrunning hready).released
    rw [add_left_comm] at hall
    have hreleased : id ∈ releasedBy crowd.timeline := by
      have hmem : id ∈ releasedBy crowd.timeline + (crowd.ended.map fun e => won e.outcome).sum :=
        add_left_cancel hall ▸ hmade
      refine (Multiset.mem_add.mp hmem).resolve_right fun hgiven => ?_
      obtain ⟨e, he, handle, cancelled, houtcome, hid⟩ := mem_won.mp hgiven
      exact hothers e he handle cancelled houtcome hid
    exact Multiset.count_eq_one_of_mem hnodup.1 hreleased
  · exact h.lull issues_recording

end Outcome

/-- A page with two functions that give something at once. -/
def duelScene : Scene where
  page := { Page.ofElements #[.ofKind .typeableInput] with
    functions := [("() => 1", ⟨0, .element 0, 0⟩), ("() => null", ⟨0, .json .null, 0⟩)] }
  clock := 0
  cancelled := false
  events := []

/-- The one against the other. -/
def duel : Contest := ⟨[.function .default () "() => 1", .function .default () "() => null"], 0, false⟩

/-- The duel, when all has come to rest. -/
def duelRun : Activity.Run side.signature (recording 0).World
    (Except Error (Except Error Handle × Bool)) :=
  Activity.Run.finish (recording 0) 10
    (Activity.Run.start (recording 0) duel.activity (duelScene.recorded 0) none)

/-- Both have given a handle when the race reads; the first is returned, and the second is released. -/
theorem outcome_of_duel :
    duelRun.main = .done (.ok (.ok ⟨0, .element 0⟩, false)) ∧ duelRun.timeline.ready = [] ∧
      madeIn duelRun.timeline.world.2 = {0, 1} ∧ 0 ∉ releasedBy duelRun.timeline ∧
      (releasedBy duelRun.timeline).count 1 = 1 := by
  have hmain : duelRun.main = .done (.ok (.ok ⟨0, .element 0⟩, false)) := by cbv
  have hready : duelRun.timeline.ready = [] := by decide +kernel
  have hmade : madeIn duelRun.timeline.world.2 = {0, 1} := by decide +kernel
  obtain ⟨crowd, log, htale, halone⟩ :=
    Tale.of_finish (fun _ _ h => (kept_of_tale (c := duel) (s := duelScene) h).orderly) 10
  have htimeline : crowd.timeline = duelRun.timeline := halone.timeline
  have houtcome := (outcome_of_tale (List.cons_ne_nil _ _) htale).1
  rcases halone.whole with ⟨a, last, hdone, hrunning, hended⟩ | ⟨hlive, -, -⟩
  · obtain rfl : a = .ok (.ok ⟨0, .element 0⟩, false) := by
      injection hdone.symm.trans hmain
    rw [← htimeline] at hready hmade ⊢
    refine ⟨hmain, hready, hmade, ?_, houtcome.rest hrunning hready 1 ?_ ?_⟩
    · exact houtcome.kept _ (hended ▸ List.mem_singleton_self _) _ _ rfl
    · show 1 ∈ madeIn crowd.timeline.world.2
      rw [hmade]
      decide
    · rintro e he h cancelled heq
      rw [hended, List.mem_singleton] at he
      rw [he] at heq
      have hsame : (⟨0, .element 0⟩ : Handle) = h :=
        Except.ok.inj (Prod.mk.inj (Except.ok.inj heq)).1
      rw [← hsame]
      decide
  · exact absurd hmain (hlive _)

end Wayfind.Simulation
