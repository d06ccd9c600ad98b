/-
Operations of locators on a page that changes while they run.

A `Scene` is a page with what will happen to it, and a signal that callers may share.  Any
number of calls may run beside each other there, each started at any time
(`Activity.Crowd`).  All of them, and the background work they set off, keep the discipline;
so the shares are balanced in every crowd that is reached (`kept_of_steps`).
-/
import Wayfind.Proofs.Keeping.Calling
import Wayfind.Proofs.Keeping.Settling
import Wayfind.Proofs.Simulation.Custody

namespace Wayfind.Simulation

open Activity (Token Tokens Timeline Crowd Kept Sound)
open Keeping (Share Balanced Station Goes Keeps keeping)
open PageSide (Action)
open Relation (ReflTransGen)

/-- An operation that somebody starts on the page. -/
abbrev Call := Keeping.Call side

/-! ### Scenes -/

/-- What happens on its own. -/
inductive Event where
  /-- The page changes. -/
  | change (timed : Timed)
  /-- Somebody cancels the signal. -/
  | cancel (time : Nat)

/-- A page before anything is started on it. -/
structure Scene where
  page : Page
  clock : Nat
  /-- The signal is cancelled already. -/
  cancelled : Bool
  events : List Event

/-- The job that makes an event happen. -/
def Event.job : Event → Job Handle Unit Timed
  | change timed => .chore timed
  | cancel time => .cancelAt time Keeping.signal

/-- The timeline with the page, its clock and the signal. -/
def Scene.stage (s : Scene) : Timeline side.signature Page :=
  { Timeline.init s.page with
    clock := s.clock
    tokens := ⟨#[⟨[], s.cancelled⟩]⟩ }

/-- The timeline in which calls are started. -/
def Scene.timeline (patience : Nat) (s : Scene) : Timeline side.signature Page :=
  s.stage.forkAll (backend patience) (s.events.map Event.job)

/-! ### The beginning -/

section Start

variable {patience : Nat} (s : Scene)

/-- The jobs of a scene hold nothing. -/
theorem starts_events {K : Activity.Backend side.signature} {Owes : K.World → Multiset Nat → Prop}
    (books : Books patience K Owes) :
    ∀ job ∈ s.events.map Event.job, Share.Starts books.custody 1 job .nothing := by
  intro job hjob
  obtain ⟨event, -, rfl⟩ := List.mem_map.mp hjob
  cases event with
  | change timed => exact Share.Starts.chore (C := books.custody) timed trivial
  | cancel time => exact .cancelAt time Keeping.signal Nat.one_pos

/-- The background of a scene is tame when the jobs of its events are. -/
theorem tame_scene {permits : Activity.Request side.signature → Prop} {mild : Query → Prop}
    (hjobs : ∀ event ∈ s.events, Activity.Tame permits mild ((backend patience).start event.job)) :
    Timeline.Tame (B := backend patience) permits mild (s.timeline patience) := by
  have hnobody : Timeline.Tame (B := backend patience) permits mild s.stage := fun _ h => absurd h List.not_mem_nil
  refine hnobody.forkAll fun job hjob => ?_
  obtain ⟨event, hevent, rfl⟩ := List.mem_map.mp hjob
  exact hjobs event hevent

/-! ### Everything keeps the discipline -/

/-- Whatever calls were started, and whoever has gone on since, the shares are balanced. -/
theorem kept_of_steps {ι : Type} (calls : ι → Call)
    {c : Crowd (backend patience) ι (Except Error (Option Handle))}
    (h : ReflTransGen (Crowd.Step (backend patience) fun who => (calls who).activity (browser patience))
      (.init (s.timeline patience)) c) :
    Kept (keeping (books_backend patience).custody 1 s.page.liveIds)
      (Keeps (books_backend patience).custody.chargeIn)
      (fun who => Keeping.Ended (calls who).terminal (calls who).timeout (calls who).signal) c :=
  Keeping.kept_opening (Keeping.sound_calls calls) rfl s.clock s.cancelled
    (starts_events s (books_backend patience)) h

/-- Also when calls were dropped on the way. -/
theorem kept_of_turns {ι : Type} (calls : ι → Call)
    {c : Crowd (backend patience) ι (Except Error (Option Handle))}
    (h : ReflTransGen (Crowd.Turn (backend patience) fun who => (calls who).activity (browser patience))
      (.init (s.timeline patience)) c) :
    Kept (keeping (books_backend patience).custody 1 s.page.liveIds)
      (Keeps (books_backend patience).custody.chargeIn)
      (fun who => Keeping.Ended (calls who).terminal (calls who).timeout (calls who).signal) c :=
  (kept_of_steps s calls .refl).turns (Keeping.sound_calls calls)
    (Keeping.keeping_settles (C := (books_backend patience).custody) 1 s.page.liveIds) h

end Start

end Wayfind.Simulation
