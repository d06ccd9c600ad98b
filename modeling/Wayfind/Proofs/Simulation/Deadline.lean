/-
An operation ends by its own deadline or its own signal.

Attempts fail for many reasons, and none of them comes out: an error is that of the
operation's own deadline, at the very millisecond of it, or tells that the caller's signal
was cancelled.  This holds whatever else runs beside the operation, under the same signal
or not.
-/
import Mathlib
import Wayfind.Proofs.Simulation.Scene

namespace Wayfind.Simulation

open Activity (Timeline Crowd)
open Keeping (Answers)
open Relation (ReflTransGen)

variable {patience : Nat}

/-- Every call that has ended, unless it reads a value at its end, ended in time or with an error
that its own deadline or the signal has brought about; without a time limit and without a cancelled
signal it has not failed. -/
theorem answers_of_crowd {ι : Type} (calls : ι → Call) (s : Scene)
    {c : Crowd (backend patience) ι (Except Error (Option Handle))}
    (h : ReflTransGen (Crowd.Step (backend patience) fun who => (calls who).activity (browser patience))
      (.init (s.timeline patience)) c) :
    ∀ e ∈ c.ended, (calls e.who).terminal.reads = false →
      Answers (calls e.who).timeout (calls e.who).signal e.began e.timeline e.outcome ∧
      ((calls e.who).timeout = 0 →
        (∀ t ∈ (calls e.who).signal, e.timeline.tokens.isCancelled t = false) →
        ∃ v, e.outcome = .ok v) := by
  intro e he hreads
  have hanswers : Answers (calls e.who).timeout (calls e.who).signal e.began e.timeline e.outcome :=
    ((kept_of_steps s calls h).ends e he).answers hreads
  refine ⟨hanswers, fun hzero hquiet => ?_⟩
  rcases houtcome : e.outcome with err | v
  · rw [houtcome] at hanswers
    rcases hanswers with ⟨hpos, -, -⟩ | ⟨-, t, ht, hc⟩
    · exact absurd hzero (Nat.ne_of_gt hpos)
    · exact absurd hc (by rw [hquiet t ht]; exact Bool.false_ne_true)
  · exact ⟨v, rfl⟩

/-- To wait for what will not appear, for 50 ms. -/
def vainCall : Call where
  locator := .node { Locator.Options.default with timeout := 50 } () "input"
  terminal := .wait
  signalled := true

/-- A page with nothing on it. -/
def emptyScene : Scene := ⟨Page.ofElements #[], 7, false, []⟩

/-- The call, run to its end. -/
def vainRun : Option (Except Error (Option Handle)) × Timeline side.signature Page :=
  Timeline.run (backend 0) 40 (vainCall.activity (browser 0)) (emptyScene.timeline 0)

/-- The call ends with its own error, 50 ms after it was started. -/
theorem answers_of_vainCall :
    ∃ c : Crowd (backend 0) Unit (Except Error (Option Handle)),
      ReflTransGen (Crowd.Step (backend 0) fun _ => vainCall.activity (browser 0))
        (.init (emptyScene.timeline 0)) c ∧
      ∃ e ∈ c.ended, e.outcome = .error (.timeout "Timed out after waiting 50ms") ∧
        e.timeline.clock = 57 := by
  have houtcome : vainRun.1 = some (.error (.timeout "Timed out after waiting 50ms")) := by cbv
  have hrun : Timeline.run (backend 0) 40 (vainCall.activity (browser 0)) (emptyScene.timeline 0) =
      (some (.error (.timeout "Timed out after waiting 50ms")), vainRun.2) := Prod.ext houtcome rfl
  obtain ⟨c, last, hsteps, -, -, hended⟩ :
      ∃ (c : Crowd (backend 0) Unit (Except Error (Option Handle)))
        (last : Timeline side.signature Page),
        ReflTransGen (Crowd.Step (backend 0) fun _ => vainCall.activity (browser 0))
          (.init (emptyScene.timeline 0)) c ∧ c.timeline = vainRun.2 ∧ c.running = [] ∧
        c.ended = [⟨(), 7, .error (.timeout "Timed out after waiting 50ms"), last⟩] :=
    Activity.run_steps
      (fun c hc => (kept_of_steps emptyScene (fun _ => vainCall) hc).orderly) hrun
  have hmem : ⟨(), 7, .error (.timeout "Timed out after waiting 50ms"), last⟩ ∈ c.ended := by
    rw [hended]
    exact List.mem_singleton_self _
  refine ⟨c, hsteps, _, hmem, rfl, ?_⟩
  rcases (answers_of_crowd (fun _ => vainCall) emptyScene hsteps _ hmem rfl).1 with
    ⟨-, hclock, -⟩ | ⟨herror, -⟩
  · exact hclock
  · exact absurd herror (by simp)

end Wayfind.Simulation
