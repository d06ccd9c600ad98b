/-
A race succeeds when one of its branches does.

A race looks with all its branches at once, and each of them once in an attempt.  When a
branch of an attempt has put a handle into the inbox that the race reads, the race returns
one by this instant: whatever failures came before it, whatever the others still wait for
(`finds_of_produced`).  It never gives an attempt up, then, in which a handle is found.

What a locator finds when it is alone says less than that.  Alone it tries again after a
failure; in a race it has failed until all others have, too.  And its first attempt may go
another way beside others, for they share the page (`not_finds_of_alone`).
-/
import Wayfind.Proofs.Simulation.Racing

namespace Wayfind.Simulation

open Activity (Inbox Request Timeline)

variable {patience : Nat}

/-- How far a call has come after so many turns. -/
def Call.after (patience : Nat) (c : Call) (s : Scene) (turns : Nat) :
    Activity.Run side.signature Page (Except Error (Option Handle)) :=
  Activity.Run.finish (backend patience) turns
    (Activity.Run.start (backend patience) (c.activity (browser patience)) (s.timeline patience) none)

/-- The call returns the handle at that time, given turns enough. -/
def Call.Finds (patience : Nat) (c : Call) (s : Scene) (h : Handle) (time : Nat) : Prop :=
  ∃ enough, ∀ budget, enough ≤ budget →
    (Timeline.run (backend patience) budget (c.activity (browser patience)) (s.timeline patience)).1 =
        some (.ok (some h)) ∧
      (Timeline.run (backend patience) budget (c.activity (browser patience)) (s.timeline patience)).2.clock = time

/-- After so many turns the call waits for the branches of an attempt, which write to the inbox. -/
def Call.Awaits (patience : Nat) (c : Call) (s : Scene) (turns : Nat) (k : Inbox) : Prop :=
  Timeline.takesFrom k (c.after patience s turns).main = true

/-- After so many turns this is the first handle in the inbox. -/
def Call.Holds (patience : Nat) (c : Call) (s : Scene) (turns : Nat) (k : Inbox) (h : Handle) : Prop :=
  firstFound ((c.after patience s turns).timeline.messages k) = some h

/-- A call that has come to a handle after some turns finds it. -/
theorem finds_of_done {c : Call} {s : Scene} {turns : Nat} {h : Handle}
    (hmain : (c.after patience s turns).main = .done (.ok (some h))) :
    c.Finds patience s h (c.after patience s turns).timeline.clock :=
  ⟨turns, fun _ hbudget => Timeline.run_of_done hmain hbudget⟩

/-- A call that has failed after some turns finds nothing. -/
theorem not_finds_of_failed {c : Call} {s : Scene} {turns : Nat} {e : Error}
    (hmain : (c.after patience s turns).main = .done (.error e)) (h : Handle) (time : Nat) :
    ¬ c.Finds patience s h time := by
  rintro ⟨enough, hfinds⟩
  have hok := (hfinds (turns + enough) (Nat.le_add_left _ _)).1
  have herror := (Timeline.run_of_done hmain (Nat.le_add_right turns enough)).1
  cases hok.symm.trans herror

/-- To wait for a handle. -/
def waitCall (l : Locator side.Page) (signalled : Bool) : Call := ⟨l, .waitHandle, signalled⟩

/-! ### From the start -/

/-- Before a call there are no inboxes, and nobody posts anything. -/
theorem stands_scene (s : Scene) : Stands ∅ .apart (s.timeline patience) :=
  ⟨trivial, fun k hk => absurd hk (Set.notMem_empty k), fun k _ => Or.inr (traffic_scene s k)⟩

variable (o : Locator.Options) (branches : List (Locator side.Page)) (signalled : Bool)

variable (patience) in
/-- However far a wait for a handle from a race has come, everything stands as its stage says. -/
theorem poised_after (s : Scene) (turns : Nat) :
    Poised ∅ (Yields some) ((waitCall (.race o branches) signalled).after patience s turns) := by
  have hstart : Poised ∅ (Yields some) (Activity.Run.start (backend patience)
      ((waitCall (.race o branches) signalled).activity (browser patience)) (s.timeline patience) none) :=
    (heads_call patience o branches signalled).advance (keptByMoves_stands ∅) (stands_scene s)
  exact hstart.finish turns

theorem exists_gathering {α : Type} {Q : Stage → α → Prop} {st : Stage} {p : side.Task α} {k : Inbox}
    (h : Heads Q st p) (htakes : Timeline.takesFrom k p = true) : ∃ n, st = .gathering k n := by
  cases p with
  | done a => exact absurd htakes Bool.false_ne_true
  | ask r ws duties next stop =>
    obtain ⟨lead, hmoves, -⟩ := h
    cases hmoves with
    | reads inbox n =>
      obtain rfl : inbox = k := by simpa [Timeline.takesFrom] using htakes
      exact ⟨n + 1, rfl⟩
    | modest hmodest =>
      cases r with
      | take inbox => exact absurd hmodest id
      | _ => exact absurd htakes Bool.false_ne_true
    | _ => exact absurd htakes Bool.false_ne_true

/-- From the turn on at which a race waits for branches, it goes on to read their inbox, or
nothing comes into it any more. -/
theorem poised_of_awaits {s : Scene} {before turns : Nat} {k : Inbox} (hle : before ≤ turns)
    (hawaits : (waitCall (.race o branches) signalled).Awaits patience s before k) :
    Poised {k} (Yields some) ((waitCall (.race o branches) signalled).after patience s turns) := by
  obtain ⟨more, rfl⟩ := Nat.exists_eq_add_of_le hle
  obtain ⟨st, hheads, hst⟩ := poised_after patience o branches signalled s before
  obtain ⟨n, rfl⟩ := exists_gathering hheads hawaits
  have hseen : Poised {k} (Yields some)
      ((waitCall (.race o branches) signalled).after patience s before) := by
    refine ⟨_, hheads, hst.holds, ?_, ?_⟩
    · rintro _ rfl
      exact hst.holds.1
    · rintro inbox (rfl | hfresh)
      · exact Or.inl rfl
      · exact hst.silent inbox (Or.inr hfresh)
  show Poised {k} (Yields some) (Activity.Run.finish (backend patience) (before + more) _)
  rw [Activity.Run.finish_add]
  exact hseen.finish more

/-! ### The race returns -/

/-- A race that reads can go on when there is a message. -/
theorem canResume_of_found {β : Type} {f : Handle → β} {p : side.Task (Except Error β)} {k : Inbox}
    {n : ℕ} {h : Handle} {tl : Timeline side.signature (backend patience).World}
    (hp : Heads (Yields f) (.gathering k n) p) (hfound : firstFound (tl.messages k) = some h) :
    tl.canResume p = true := by
  cases p with
  | done a => exact absurd hp id
  | ask r ws duties next stop =>
    obtain ⟨lead, hmoves, -⟩ := hp
    cases hmoves with
    | reads inbox n =>
      have hsome : (tl.messages k).isEmpty = false := by
        cases hm : tl.messages k with
        | nil =>
          rw [hm] at hfound
          exact absurd hfound nofun
        | cons m rest => rfl
      simp only [Timeline.canResume, hsome, Bool.not_false, Bool.or_true]
    | child | branch | fails => exact Bool.or_true _

/-- A race that has been won has ended, or can go on. -/
theorem done_or_canResume_of_won {β : Type} {f : Handle → β} {p : side.Task (Except Error β)}
    {k : Inbox} {h : Handle} (hp : Heads (Yields f) (.won k h) p) :
    p = .done (.ok (f h)) ∨ ∀ tl : Timeline side.signature Page, tl.canResume p = true := by
  cases p with
  | done a => exact Or.inl (congrArg Activity.done hp)
  | ask r ws duties next stop =>
    obtain ⟨lead, hmoves, -⟩ := hp
    cases hmoves with
    | cancels | drains => exact Or.inr fun tl => Bool.or_true _

/-- A call that can go on to a handle whenever the background has come to rest finds it at this
instant. -/
theorem finds_of_rest {c : Call} {s : Scene} {turns : Nat} {h : Handle}
    {K : Timeline side.signature (backend patience).World → Prop}
    (hkept : ∀ (tl : Timeline side.signature (backend patience).World) id rest,
      tl.ready = id :: rest → K tl → K (Timeline.runTask (backend patience) { tl with ready := rest } id))
    (hK : K (c.after patience s turns).timeline)
    (hcan : ∀ tl, K tl → tl.canResume (c.after patience s turns).main = true)
    (hends : ∀ tl, K tl → (Timeline.resume (backend patience) (c.after patience s turns).main tl).1 =
      .done (.ok (some h))) :
    c.Finds patience s h (c.after patience s turns).timeline.clock := by
  set run := c.after patience s turns with hrun
  obtain ⟨more, tl, hlull, hready, hclock, hrest⟩ :=
    Activity.Run.lull issues_page (K := fun tl => tl.clock = run.timeline.clock ∧ K tl)
      (fun tl id rest hready ⟨hclock, h⟩ =>
        ⟨(Timeline.runTask_instant (B := backend patience) _ id).clock.trans hclock,
          hkept tl id rest hready h⟩) run ⟨rfl, hK⟩
  have hlast : c.after patience s (turns + (more + 1)) =
      { run with
        main := (Timeline.resume (backend patience) run.main tl).1
        timeline := (Timeline.resume (backend patience) run.main tl).2 } := by
    have hstep : Activity.Run.step (backend patience) { run with timeline := tl } = some { run with
        main := (Timeline.resume (backend patience) run.main tl).1
        timeline := (Timeline.resume (backend patience) run.main tl).2 } :=
      Activity.Run.step_of_canResume hready (hcan tl hrest)
    show Activity.Run.finish (backend patience) (turns + (more + 1)) _ = _
    rw [Activity.Run.finish_add, Activity.Run.finish_add]
    exact (congrArg (Activity.Run.finish (backend patience) 1) hlull).trans
      (Activity.Run.finish_of_step hstep 0)
  have hmain : (c.after patience s (turns + (more + 1))).main = .done (.ok (some h)) := by
    rw [hlast]
    exact hends tl hrest
  have htime : (c.after patience s (turns + (more + 1))).timeline.clock = run.timeline.clock := by
    rw [hlast]
    exact (Timeline.resume_instant (B := backend patience) run.main tl).clock.trans hclock
  exact htime ▸ finds_of_done hmain

theorem finds_of_gathering {c : Call} {s : Scene} {turns : Nat} {seen : Set Inbox} {k : Inbox} {n : ℕ}
    {h : Handle} (hheads : Heads (Yields some) (.gathering k n) (c.after patience s turns).main)
    (hst : Stands seen (.gathering k n) (c.after patience s turns).timeline)
    (hfound : firstFound ((c.after patience s turns).timeline.messages k) = some h) :
    c.Finds patience s h (c.after patience s turns).timeline.clock := by
  refine finds_of_rest (K := fun tl => Stands seen (.gathering k n) tl ∧
    firstFound (tl.messages k) = some h) ?_ ⟨hst, hfound⟩ ?_ ?_
  · rintro tl id rest - ⟨hst, hfound⟩
    set queued : Timeline side.signature (backend patience).World := { tl with ready := rest }
    have hqueued : Stands seen (.gathering k n) queued := ⟨hst.holds, hst.made, hst.silent⟩
    obtain ⟨-, hprefix⟩ := runTask_traffic id (Or.inl hqueued.holds.1) hqueued.holds.2
    exact ⟨hqueued.runTask id, firstFound_of_prefix hprefix hfound⟩
  · rintro tl ⟨-, hfound⟩
    exact canResume_of_found hheads hfound
  · rintro tl ⟨hst, hfound⟩
    obtain ⟨q, hq, hresume⟩ := hheads.exists_advance tl
    rw [hresume]
    exact advance_of_found hq hst.holds.2 hfound

theorem finds_of_won {c : Call} {s : Scene} {turns : Nat} {k : Inbox} {h : Handle}
    (hheads : Heads (Yields some) (.won k h) (c.after patience s turns).main) :
    c.Finds patience s h (c.after patience s turns).timeline.clock := by
  rcases done_or_canResume_of_won hheads with hdone | hcan
  · exact finds_of_done hdone
  · refine finds_of_rest (K := fun _ => True) (fun _ _ _ _ _ => trivial) trivial
      (fun tl _ => hcan tl) fun tl _ => ?_
    obtain ⟨q, hq, hresume⟩ := hheads.exists_advance tl
    rw [hresume]
    exact advance_of_won hq

/-- When a branch of an attempt has found a handle, the race returns one by this instant: this
handle, if the race still waits. -/
theorem finds_of_produced (s : Scene) {before turns : Nat} {k : Inbox} {h : Handle}
    (hle : before ≤ turns)
    (hawaits : (waitCall (.race o branches) signalled).Awaits patience s before k)
    (hholds : (waitCall (.race o branches) signalled).Holds patience s turns k h) :
    ∃ winner, (waitCall (.race o branches) signalled).Finds patience s winner
        ((waitCall (.race o branches) signalled).after patience s turns).timeline.clock ∧
      ((waitCall (.race o branches) signalled).Awaits patience s turns k → winner = h) := by
  obtain ⟨st, hheads, hst⟩ := poised_of_awaits o branches signalled hle hawaits
  rcases hst.silent k (Or.inl rfl) with hinbox | hnone
  · cases st with
    | apart => exact absurd hinbox nofun
    | gathering inbox n =>
      obtain rfl := Option.some.inj hinbox
      exact ⟨h, finds_of_gathering hheads hst hholds, fun _ => rfl⟩
    | won inbox winner =>
      refine ⟨winner, finds_of_won hheads, fun hstill => ?_⟩
      obtain ⟨n, hn⟩ := exists_gathering hheads hstill
      exact absurd hn nofun
  · exact (not_found_of_traffic hnone hholds).elim

/-- A page function that fails a few times, and an element that appears after a while. -/
def lateScene : Scene where
  page := { Page.ofElements #[Element.ofKind .unknown] with
    functions := [("() => 1", ⟨5, .json .null, 0⟩)] }
  clock := 0
  cancelled := false
  events := [.change ⟨30, .add "#late" 0⟩]

/-- To give up after so many milliseconds. -/
def limited (ms : Nat) : Locator.Options := { Locator.Options.default with timeout := ms }

/-- To wait for whatever comes first of the function and the element. -/
def lateBranches : List (Locator side.Page) :=
  [.function (limited 150) () "() => 1", .node (limited 150) () "#late"]

/-- The function has failed at once; the element is found when it is there. -/
theorem finds_late :
    (waitCall (.race (limited 150) lateBranches) false).Awaits 0 lateScene 4 0 ∧
      (waitCall (.race (limited 150) lateBranches) false).Holds 0 lateScene 12 0 ⟨0, .element 0⟩ ∧
      (waitCall (.race (limited 150) lateBranches) false).Finds 0 lateScene ⟨0, .element 0⟩ 30 := by
  have hawaits : (waitCall (.race (limited 150) lateBranches) false).Awaits 0 lateScene 4 0 := by
    unfold Call.Awaits
    decide +kernel
  have hstill : (waitCall (.race (limited 150) lateBranches) false).Awaits 0 lateScene 12 0 := by
    unfold Call.Awaits
    decide +kernel
  have hholds : (waitCall (.race (limited 150) lateBranches) false).Holds 0 lateScene 12 0
      ⟨0, .element 0⟩ := by
    unfold Call.Holds
    cbv
  have hclock : ((waitCall (.race (limited 150) lateBranches) false).after 0 lateScene
      12).timeline.clock = 30 := by
    decide +kernel
  obtain ⟨winner, hfinds, hsame⟩ :=
    finds_of_produced _ _ _ lateScene (show 4 ≤ 12 by decide) hawaits hholds
  obtain rfl := hsame hstill
  exact ⟨hawaits, hholds, hclock ▸ hfinds⟩

/-! ### Alone and beside others -/

/-- To wait for a handle, so many milliseconds at most. -/
def waitWithin (ms : Nat) (l : Locator side.Page) : Call := waitCall (l.set (.timeout ms)) false

/-- A page function that fails once. -/
def flaky : Locator side.Page := .ofFunction () "() => 1"

/-- A page with that function and nothing else. -/
def flakyScene : Scene where
  page := { Page.ofElements #[] with functions := [("() => 1", ⟨1, .json .null, 0⟩)] }
  clock := 0
  cancelled := false
  events := []

/-- Takes what the function gives, or else an element, provided that it says yes. -/
def choosy : Locator side.Page := .filter (.anyOf [flaky, .ofSelector () "#a"]) "is yes"

/-- A page with an element that says yes, and the function, which gives another one. -/
def sharedScene : Scene where
  page := { Page.ofElements #[{ Element.ofKind .unknown with value := "yes" },
      Element.ofKind .unknown] with
    served := [("#a", 0)]
    functions := [("() => 1", ⟨1, .element 1, 0⟩)]
    predicates := [("is yes", ⟨fun _ e => e.value == "yes", 0⟩)] }
  clock := 0
  cancelled := false
  events := []

/-- What a locator would find alone, in its time, a race need not find: for it tries again only
when all others have failed.  It need not even find what the locator would find at once: the
function fails for another branch, and gives this one something else. -/
theorem not_finds_of_alone :
    (¬ ∀ (ms : Nat) (s : Scene) (branches : List (Locator side.Page)), 0 < ms →
      (∃ l ∈ branches, ∃ h time, (waitWithin ms l).Finds 0 s h time ∧ time < s.clock + ms) →
        ∃ h time, (waitWithin ms (.anyOf branches)).Finds 0 s h time) ∧
    ¬ ∀ (ms : Nat) (s : Scene) (branches : List (Locator side.Page)), 0 < ms →
      (∃ l ∈ branches, ∃ h, (waitWithin ms l).Finds 0 s h s.clock) →
        ∃ h time, (waitWithin ms (.anyOf branches)).Finds 0 s h time := by
  constructor
  · intro hclaim
    have halone : ((waitWithin 150 flaky).after 0 flakyScene 20).main =
        .done (.ok (some ⟨0, .json .null⟩)) := by cbv
    have hclock : ((waitWithin 150 flaky).after 0 flakyScene 20).timeline.clock = 100 := by
      decide +kernel
    have hrace : ((waitWithin 150 (.anyOf [flaky, .ofSelector () "#missing"])).after 0 flakyScene
        60).main = .done (.error (.timeout "Timed out after waiting 150ms")) := by cbv
    obtain ⟨h, time, hfinds⟩ := hclaim 150 flakyScene [flaky, .ofSelector () "#missing"] (by decide)
      ⟨flaky, List.mem_cons_self, _, _, finds_of_done halone, by rw [hclock]; decide⟩
    exact not_finds_of_failed hrace h time hfinds
  · intro hclaim
    have halone : ((waitWithin 50 choosy).after 0 sharedScene 20).main =
        .done (.ok (some ⟨0, .element 0⟩)) := by cbv
    have hclock : ((waitWithin 50 choosy).after 0 sharedScene 20).timeline.clock = 0 := by
      decide +kernel
    have hrace : ((waitWithin 50 (.anyOf [flaky, choosy])).after 0 sharedScene 60).main =
        .done (.error (.timeout "Timed out after waiting 50ms")) := by cbv
    obtain ⟨h, time, hfinds⟩ := hclaim 50 sharedScene [flaky, choosy] (by decide)
      ⟨choosy, List.mem_cons_of_mem _ List.mem_cons_self, _, hclock ▸ finds_of_done halone⟩
    exact not_finds_of_failed hrace h time hfinds

end Wayfind.Simulation
