/-
No handle of a page behind a connection is lost, and none is left.

When operations have ended and the background has done what it can, every handle that was
made has been disposed once, and every reference that the page handed over has been
released once; but for the handles that callers were given, and for the utility bundles
of the world.  Whatever the peer answers, whichever commands fail, and wherever deadlines
or signals interrupt, this is so.
-/
import Wayfind.Proofs.Keeping.Settling
import Wayfind.Proofs.Remote.Custody

namespace Wayfind.Remote

open Activity (Timeline Crowd Kept)
open Keeping (Call Keeps Share keeping opening)
open Relation (ReflTransGen)

variable {P : Peer} {patience : Nat}

/-- What happens on its own. -/
inductive Event where
  /-- The connection is closed. -/
  | close (time : Nat)
  /-- Somebody cancels the signal. -/
  | cancel (time : Nat)

/-- A page behind a connection before anything is started on it. -/
structure Scene (P : Peer) where
  world : World P
  clock : Nat
  /-- The signal is cancelled already. -/
  cancelled : Bool
  events : List Event

/-- The job that makes an event happen. -/
def Event.job : Event → Job Handle Unit Chore
  | close time => .chore (.change time .close)
  | cancel time => .cancelAt time Keeping.signal

/-- The timeline in which operations are started, and the world is recorded. -/
def Scene.timeline (patience : Nat) (s : Scene P) : Timeline side.signature (recording P patience).World :=
  (opening (K := recording P patience) (s.world, []) s.clock s.cancelled).forkAll (recording P patience)
    (s.events.map Event.job)

/-! ### What is settled -/

/-- The handle that was handed on, if there is one. -/
def handedOn : Except Error (Option Handle) → Multiset Handle
  | .ok (some h) => {h}
  | _ => 0

/-- The references behind handles. -/
def references (hs : Multiset Handle) : Multiset String := hs.bind fun h => reference h.remote

@[simp] theorem references_add (hs more : Multiset Handle) :
    references (hs + more) = references hs + references more :=
  Multiset.add_bind _ _ _

/-- What has become of handles and references, when these were handed on. -/
structure Settled (w : World P) (handed : Multiset Handle) (x : Recorded P) : Prop where
  /-- Every handle that was made was disposed, once; but for those that were handed on, and the world's
  own. -/
  handles : total Instant.made x.2 = total Instant.disposed x.2 + handed + total Instant.kept x.2
  /-- The page was told once to release the reference behind each handle that was disposed, and each
  reference that it handed over and of which no handle was made. -/
  released : ∃ unused, total Instant.given x.2 = references (total Instant.made x.2) + unused ∧
    total Instant.released x.2 = references (total Instant.disposed x.2) + unused
  /-- The handles that are live are those from before, those that were handed on, and the world's own. -/
  live : liveIn x.1.ledger = liveIn w.ledger + (handed + total Instant.kept x.2).map Handle.id

/-- When nothing else is owed than before, and for the handles that were handed on, all is settled. -/
theorem Owes.settled {w : World P} {x : Recorded P} {m : Multiset Charge} {handed : Multiset Handle}
    (h : Owes x (standing w + m)) (hm : m = handed.bind Handle.charge) :
    Settled w handed x := by
  have howned : owned m = handed := by
    rw [hm, owned, Multiset.bind_assoc]
    exact (Multiset.bind_congr fun h _ => owned_charge h).trans
      ((Multiset.bind_singleton handed id).trans (Multiset.map_id handed))
  have hmarks : marks m = handed.map Handle.id := by
    rw [hm, marks, Multiset.bind_assoc]
    exact (Multiset.bind_congr fun h _ => marks_charge h).trans (Multiset.bind_singleton _ _)
  have hrefs : Remote.refs m = references handed := by
    rw [hm, Remote.refs, Multiset.bind_assoc]
    exact Multiset.bind_congr fun h _ => refs_charge h
  have hhandles : total Instant.made x.2 = total Instant.disposed x.2 + handed + total Instant.kept x.2 := by
    have heq := h.handles
    rwa [owned_add, owned_standing, zero_add, howned] at heq
  refine ⟨hhandles, ?_, ?_⟩
  · obtain ⟨unused, hunused⟩ := Multiset.le_iff_exists_add.mp
      ((Multiset.le_add_right _ _).trans h.made)
    refine ⟨unused, hunused, ?_⟩
    have heq : references (total Instant.made x.2) + unused = total Instant.released x.2 +
        references handed + references (total Instant.kept x.2) := by
      have hgiven := h.refs
      rw [hunused, refs_add, refs_standing, zero_add, hrefs] at hgiven
      exact hgiven
    rw [hhandles, references_add, references_add] at heq
    refine add_right_cancel (b := references handed + references (total Instant.kept x.2)) ?_
    rw [← add_assoc, ← heq]
    abel
  · rw [h.live, marks_add, marks_standing, hmarks, Multiset.map_add, add_assoc]

/-! ### Rest -/

theorem starts_events (hP : P.Quiet False) (s : Scene P) :
    ∀ job ∈ s.events.map Event.job, Share.Starts (custody hP patience) 1 job .nothing := by
  intro job hjob
  obtain ⟨event, -, rfl⟩ := List.mem_map.mp hjob
  cases event with
  | close time => exact Share.Starts.chore (C := custody hP patience) (.change time .close) ⟨time, rfl⟩
  | cancel time => exact .cancelAt time Keeping.signal Nat.one_pos

theorem sum_chargeIn {δ : Type} (outcome : δ → Except Error (Option Handle)) (entries : List δ) :
    (entries.map fun e => (account P patience).chargeIn (outcome e)).sum =
      (entries.map fun e => handedOn (outcome e)).sum.bind Handle.charge := by
  have hone : ∀ e, (account P patience).chargeIn (outcome e) = (handedOn (outcome e)).bind Handle.charge := by
    intro e
    rw [chargeIn_account]
    rcases outcome e with err | _ | h
    · rfl
    · rfl
    · exact (add_zero h.charge).trans (Multiset.singleton_bind h Handle.charge).symm
  induction entries with
  | nil => rfl
  | cons e rest ih =>
    rw [List.map_cons, List.sum_cons, List.map_cons, List.sum_cons, Multiset.add_bind, ih, hone]

/-- Whatever calls were started, and whoever has gone on since, the shares fit together. -/
theorem kept_of_steps (hP : P.Quiet False) {ι : Type} (calls : ι → Call side) (s : Scene P)
    {c : Crowd (recording P patience) ι (Except Error (Option Handle))}
    (h : ReflTransGen (Crowd.Step (recording P patience) fun who => (calls who).activity (browser patience))
      (.init (s.timeline patience)) c) :
    Kept (keeping (custody hP patience) 1 (standing s.world)) (Keeps (custody hP patience).chargeIn)
      (fun who => Keeping.Ended (calls who).terminal (calls who).timeout (calls who).signal) c :=
  Keeping.kept_opening (Keeping.sound_calls calls) (owes_standing s.world) s.clock s.cancelled
    (starts_events hP s) h

/-- Whenever all calls have ended and the background is at rest, everything is settled. -/
theorem settled_of_crowd (hP : P.Quiet False) {ι : Type} (calls : ι → Call side) (s : Scene P)
    {c : Crowd (recording P patience) ι (Except Error (Option Handle))}
    (h : ReflTransGen (Crowd.Step (recording P patience) fun who => (calls who).activity (browser patience))
      (.init (s.timeline patience)) c)
    (hready : c.timeline.ready = []) (hrunning : c.running = []) :
    Settled s.world (c.ended.map fun e => handedOn e.outcome).sum c.timeline.world := by
  exact Owes.settled (Keeping.owes_of_idle (kept_of_steps hP calls s h) hready hrunning) (sum_chargeIn _ _)

/-- An operation that has returned leaves everything settled, once the background has done what it can
at that instant; and only a wait for a handle hands one on. -/
theorem settled_of_run (hP : P.Quiet False) (budget : Nat) (call : Call side) (s : Scene P)
    {outcome : Except Error (Option Handle)} {after : Timeline side.signature (recording P patience).World}
    (hrun : (s.timeline patience).run (recording P patience) budget (call.activity (browser patience)) =
      (some outcome, after)) (hready : after.ready = []) :
    Settled s.world (handedOn outcome) after.world ∧
      ∀ v, outcome = .ok v → v.isSome = call.terminal.hands := by
  obtain ⟨c, last, hsteps, rfl, hrunning, hended⟩ :
      ∃ (c : Crowd (recording P patience) Unit (Except Error (Option Handle)))
        (last : Timeline side.signature (recording P patience).World),
        ReflTransGen (Crowd.Step (recording P patience) fun _ => call.activity (browser patience))
          (.init (s.timeline patience)) c ∧
        c.timeline = after ∧ c.running = [] ∧
        c.ended = [⟨(), (s.timeline patience).clock, outcome, last⟩] :=
    Activity.run_steps (fun c hc => (kept_of_steps hP (fun _ => call) s hc).orderly) hrun
  refine ⟨?_, ?_⟩
  · have hsettled := settled_of_crowd hP (fun _ => call) s hsteps hready hrunning
    rw [hended] at hsettled
    simpa using hsettled
  · have hends := (kept_of_steps hP (fun _ => call) s hsteps).ends ⟨(), _, outcome, last⟩
      (by rw [hended]; exact List.mem_singleton_self _)
    exact hends.hands

/-! ### A page that releases nothing -/

/-- What a page says in reply to the command of a number: it counts references up, and fails to release
any.  The second of them stands for nothing. -/
def stubbornReply (method : String) (n : Nat) : Except Error Json :=
  if method = "Runtime.releaseObject" then .error (.internal "out of order")
  else .ok (.object [("result", .object [
    ("subtype", .string (if n = 2 then "null" else "node")), ("objectId", .string (toString n))])])

/-- A page that answers by the number of commands it was sent. -/
def stubborn : Peer where
  State := Nat
  command method _ n := (⟨0, stubbornReply method n⟩, [], n + 1)
  listen _ := .ok ()
  close n := (.ok (), n)

/-- A new connection to the page. -/
def stubbornScene : Scene stubborn where
  world := World.init (0 : Nat) "bundle"
  clock := 0
  cancelled := false
  events := [.cancel 500]

/-- A race of the body, once it is ready, against a node with a text. -/
def stubbornCall : Call side where
  locator := .race .default [
    .filtered .default (.function .default () "() => document.body") "e => e.ready",
    .node .default () "text/Buy"]
  terminal := .waitHandle
  signalled := true

/-- The race, run to its end. -/
def stubbornRun : Option (Except Error (Option Handle)) ×
    Timeline side.signature (recording stubborn 0).World :=
  (stubbornScene.timeline 0).run (recording stubborn 0) 40 (stubbornCall.activity (browser 0))

/-- The node is handed on, and the bundle is kept; the body is disposed while its predicate is waited
for, and the result that was of no use is released too. -/
theorem settled_of_stubbornRun :
    ∃ outcome, stubbornRun.1 = some outcome ∧ stubbornRun.2.ready = [] ∧
      Settled stubbornScene.world (handedOn outcome) stubbornRun.2.world ∧
      (handedOn outcome).map Handle.id = {2} ∧
      (total Instant.made stubbornRun.2.world.2).map Handle.id = {0, 1, 2} ∧
      (total Instant.kept stubbornRun.2.world.2).map Handle.id = {1} ∧
      total Instant.released stubbornRun.2.world.2 = {"1", "2"} := by
  have hready : stubbornRun.2.ready = [] := by decide +kernel
  have houtcome : stubbornRun.1.map (fun r => (handedOn r).map Handle.id) = some {2} := by decide +kernel
  have hmade : (total Instant.made stubbornRun.2.world.2).map Handle.id = {0, 1, 2} := by decide +kernel
  have hkept : (total Instant.kept stubbornRun.2.world.2).map Handle.id = {1} := by decide +kernel
  have hreleased : total Instant.released stubbornRun.2.world.2 = {"1", "2"} := by decide +kernel
  have hquiet : stubborn.Quiet False := ⟨fun _ _ _ => rfl, fun _ _ _ h => absurd h (Nat.lt_irrefl 0)⟩
  obtain ⟨outcome, hsome, hhanded⟩ := Option.map_eq_some_iff.mp houtcome
  have hrun : stubbornRun = (some outcome, stubbornRun.2) :=
    (Prod.eta stubbornRun).symm.trans (congrArg (fun r => (r, stubbornRun.2)) hsome)
  exact ⟨outcome, hsome, hready, (settled_of_run hquiet 40 stubbornCall stubbornScene hrun hready).1,
    hhanded, hmade, hkept, hreleased⟩

end Wayfind.Remote
