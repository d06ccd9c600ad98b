/-
No handle is lost, and none is left.

When all calls have ended and the background has done what it can, the live handles of the
page are those that were live before, and those that callers were given.  Whatever was
found by attempts that failed, by branches that lost or for a filter has been released.
-/
import Mathlib
import Wayfind.Proofs.Simulation.Scene

namespace Wayfind.Simulation

open Activity (Timeline Run Crowd Kept)
open Keeping (Keeps keeping)
open Relation (ReflTransGen)

variable {patience : Nat}

/-- When the shares are balanced, all calls have ended and the background is at rest, the live
handles are those from before and those that were handed on. -/
theorem liveIds_of_kept {ι : Type} {s : Scene} {Ends : ι → Nat → Except Error (Option Handle) →
      Timeline side.signature Page → Prop}
    {c : Crowd (backend patience) ι (Except Error (Option Handle))}
    (h : Kept (keeping (books_backend patience).custody 1 s.page.liveIds)
      (Keeps (books_backend patience).custody.chargeIn) Ends c)
    (hready : c.timeline.ready = []) (hrunning : c.running = []) :
    Page.liveIds c.timeline.world =
      s.page.liveIds + (c.ended.map fun e => foundIn e.outcome).sum := by
  have howes := Keeping.owes_of_idle (C := (books_backend patience).custody) h hready hrunning
  refine Eq.trans howes (congrArg (s.page.liveIds + ·) (congrArg List.sum ?_))
  exact List.map_congr_left fun e _ => chargeIn_account e.outcome

/-- In every crowd whose calls have ended and whose background is at rest, the live handles are
those from before and those that were handed on. -/
theorem liveIds_of_crowd {ι : Type} (calls : ι → Call) (s : Scene)
    {c : Crowd (backend patience) ι (Except Error (Option Handle))}
    (h : ReflTransGen (Crowd.Step (backend patience) fun who => (calls who).activity (browser patience))
      (.init (s.timeline patience)) c)
    (hready : c.timeline.ready = []) (hrunning : c.running = []) :
    Page.liveIds c.timeline.world =
      s.page.liveIds + (c.ended.map fun e => foundIn e.outcome).sum :=
  liveIds_of_kept (kept_of_steps s calls h) hready hrunning

/-- Whoever is given a handle finds it live. -/
theorem live_of_done {turns : Nat} {call : Call} {s : Scene} {h : Handle} {last : Timeline side.signature Page}
    (hend : (Run.start (backend patience) (call.activity (browser patience)) (s.timeline patience) none).finish
      (backend patience) turns = ⟨.done (.ok (some h)), last, none⟩) : h.id ∈ Page.liveIds last.world := by
  obtain ⟨c, hsteps, halone⟩ := Activity.start_steps (B := backend patience) ()
    (fun c hc => (kept_of_steps s (fun _ => call) hc).orderly) turns
  rw [hend] at halone
  obtain ⟨rest, howes⟩ := Keeping.owes_of_kept (C := (books_backend patience).custody)
    (kept_of_steps s (fun _ => call) hsteps)
  rcases halone.whole with ⟨a, began, hdone, -, hended⟩ | ⟨hlive, -, -⟩
  · obtain rfl : .ok (some h) = a := Activity.done.inj hdone
    rw [hended] at howes
    have hgiven : h.id ∈ (books_backend patience).custody.chargeIn (.ok (some h)) := by
      refine (congrArg (h.id ∈ ·) (chargeIn_account (.ok (some h)))).mpr ?_
      exact Multiset.mem_singleton_self h.id
    have hlive : h.id ∈ Page.liveIds c.timeline.world := by
      refine (congrArg (h.id ∈ ·) (show Page.liveIds c.timeline.world = _ from howes)).mpr ?_
      refine Multiset.mem_add.mpr (.inr (Multiset.mem_add.mpr (.inl ?_)))
      exact Multiset.mem_add.mpr (.inl hgiven)
    have htimeline : c.timeline = last := halone.timeline
    exact htimeline ▸ hlive
  · exact absurd rfl (hlive _)

/-- An operation that has returned leaves the live handles that were there before, and the handle it
has handed on; once, that is, the background has done what it can at that instant. -/
theorem liveIds_of_run (budget : Nat) (call : Call) (s : Scene)
    {outcome : Except Error (Option Handle)} {after : Timeline side.signature Page}
    (hrun : Timeline.run (backend patience) budget (call.activity (browser patience)) (s.timeline patience) =
      (some outcome, after)) (hready : after.ready = []) :
    after.world.liveIds = s.page.liveIds + foundIn outcome ∧
      (∀ v, outcome = .ok v → v.isSome = call.terminal.hands) ∧
      ∀ handle, outcome = .ok (some handle) → handle.id ∉ s.page.liveIds := by
  obtain ⟨c, last, hsteps, rfl, hrunning, hended⟩ :
      ∃ (c : Crowd (backend patience) Unit (Except Error (Option Handle)))
        (last : Timeline side.signature Page),
        ReflTransGen (Crowd.Step (backend patience) fun _ => call.activity (browser patience))
          (.init (s.timeline patience)) c ∧
        c.timeline = after ∧ c.running = [] ∧
        c.ended = [⟨(), (s.timeline patience).clock, outcome, last⟩] :=
    Activity.run_steps (fun c hc => (kept_of_steps s (fun _ => call) hc).orderly) hrun
  have hlive : Page.liveIds c.timeline.world = s.page.liveIds + foundIn outcome := by
    rw [liveIds_of_crowd (fun _ => call) s hsteps hready hrunning, hended]
    simp
  refine ⟨hlive, ?_, ?_⟩
  · have hends := (kept_of_steps s (fun _ => call) hsteps).ends ⟨(), _, outcome, last⟩
      (by rw [hended]; exact List.mem_singleton_self _)
    exact hends.hands
  · rintro handle rfl hmem
    have hnodup := Page.nodup_liveIds c.timeline.world
    rw [hlive] at hnodup
    exact Multiset.disjoint_left.mp (Multiset.nodup_add.mp hnodup).2.2 hmem
      (Multiset.mem_singleton_self handle.id)

/-- A page with an element under a selector, a predicate that holds of it, and a function. -/
def racingScene : Scene where
  page := { Page.ofElements #[.ofKind .typeableInput] with
    served := [("input", 0)]
    functions := [("() => null", ⟨0, .json .null, 0⟩)]
    predicates := [("e => true", ⟨fun _ _ => true, 0⟩)]
    ledger := #[true, false] }
  clock := 0
  cancelled := false
  events := [.cancel 500]

/-- A race of the element, once the predicate holds, against the function. -/
def racingCall : Call where
  locator := .race .default [.filtered .default (.node .default () "input") "e => true",
    .function .default () "() => null"]
  terminal := .waitHandle
  signalled := true

/-- The race, run to its end. -/
def racingRun : Option (Except Error (Option Handle)) × Timeline side.signature Page :=
  Timeline.run (backend 0) 20 (racingCall.activity (browser 0)) (racingScene.timeline 0)

/-- In the race three handles are made, and one of them is left. -/
theorem liveIds_of_racingRun :
    racingRun.1 = some (.ok (some ⟨2, .element 0⟩)) ∧ racingRun.2.ready = [] ∧
      racingRun.2.world.ledger.size = 5 ∧
      racingRun.2.world.liveIds = racingScene.page.liveIds + {2} := by
  have houtcome : racingRun.1 = some (.ok (some ⟨2, .element 0⟩)) := by cbv
  have hready : racingRun.2.ready = [] := by decide +kernel
  have hsize : racingRun.2.world.ledger.size = 5 := by decide +kernel
  refine ⟨houtcome, hready, hsize, ?_⟩
  exact (liveIds_of_run 20 racingCall racingScene (Prod.ext houtcome rfl) hready).1

end Wayfind.Simulation
