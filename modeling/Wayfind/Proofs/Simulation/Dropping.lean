/-
Nothing is left of an operation that was dropped.

An operation may be dropped wherever it waits: while it looks for a selector, asks a filter,
rests between two attempts, or has handles of a race queued that it has not taken.  What it
held its duties hand to the background, and the branches of its races go on there until they
see that they are cancelled.  At the same instant all this comes to rest, and the live handles
are those that were live before (`left_of_dropped`).

Only the foreground does anything to an element.  What is left of a dropped operation asks
for nothing but releases, and its branches only look, so no element is touched any more: what
becomes of the elements is what the events of the scene make of them.
-/
import Wayfind.Proofs.Simulation.Conservation
import Wayfind.Proofs.Simulation.Outside

namespace Wayfind.Simulation

open Activity (Timeline Crowd Member KeptBy)
open Activity.Timeline (giveUp settle runTask)
open Relation (ReflTransGen)

variable {patience : Nat}

/-! ### Elements that nothing is done to -/

/-- Nothing was done to any element in between: they are as some of these changes have left them, in the
order in which these happened. -/
def Page.Untouched (expects : Change → Prop) (p after : Page) : Prop :=
  ∃ changes : List Change, (∀ c ∈ changes, expects c) ∧
    ∀ id, after.element id = changes.foldl (fun e c => c.on id e) (p.element id)

section Untouched

variable {expects : Change → Prop}

theorem Page.Untouched.of_same {p after : Page} (h : after.elements = p.elements) : p.Untouched expects after :=
  ⟨[], nofun, fun _ => by rw [Page.element, h]; rfl⟩

theorem Page.Untouched.refl (p : Page) : p.Untouched expects p := .of_same rfl

theorem Page.Untouched.trans {p mid after : Page} (h : p.Untouched expects mid) (h' : mid.Untouched expects after) :
    p.Untouched expects after := by
  obtain ⟨earlier, hearlier, hmid⟩ := h
  obtain ⟨later, hlater, hafter⟩ := h'
  refine ⟨earlier ++ later, fun c hc => (List.mem_append.mp hc).elim (hearlier c) (hlater c), fun id => ?_⟩
  rw [hafter, hmid, List.foldl_append]

/-- The question reaches no element through a handle, and a change is one of these. -/
def Query.Leaves (expects : Change → Prop) (q : Query) : Prop := q.Aside ∧ ∀ c, q = .change c → expects c

/-- Such a question touches no element. -/
theorem untouched_answer {q : Query} (hq : q.Leaves expects) (p : Page) : p.Untouched expects (p.answer q).2 := by
  obtain ⟨haside, hexpected⟩ := hq
  by_cases hchange : ∃ c, q = .change c
  · obtain ⟨c, rfl⟩ := hchange
    exact ⟨[c], fun c' hc' => List.mem_singleton.mp hc' ▸ hexpected c rfl, element_apply c p⟩
  · exact .of_same (elements_answer haside (fun c hc => hchange ⟨c, hc⟩) p)

theorem kept_untouched (start : Page) :
    KeptBy (backend patience) (Query.Leaves expects) fun w => start.Untouched expects w :=
  fun _ w hq hw => hw.trans (untouched_answer hq w)

end Untouched

/-! ### What is left -/

section Left

variable {s : Scene}

theorem leaves_looks (q : Query) (hq : q.looks = true) : q.Leaves s.Expects :=
  ⟨q.aside_of_looks hq, fun c hc => absurd hc (q.ne_change_of_looks hq c)⟩

theorem leaves_change (c : Change) (hc : s.Expects c) : (Query.change c).Leaves s.Expects :=
  ⟨rfl, fun _ hsame => Query.change.inj hsame ▸ hc⟩

theorem leaves_tames : Activity.Tames (backend patience) s.Permits (Query.Leaves s.Expects) :=
  tames_scene leaves_looks leaves_change

end Left

section Dropped

variable {ι : Type} (calls : ι → Call) (s : Scene)
  {c : Crowd (backend patience) ι (Except Error (Option Handle))}
  (h : ReflTransGen (Crowd.Turn (backend patience) fun who => (calls who).activity (browser patience))
    (.init (s.timeline patience)) c)

include h

/-- Whatever calls were started or dropped, the background reaches no element through a handle. -/
theorem leaves_of_turns : c.timeline.Tame s.Permits (Query.Leaves s.Expects) :=
  (Crowd.tame_of_turns leaves_tames (fun who => (inner_call (calls who)).mono fun _ hr => hr.permits) h
    ⟨tame_timeline leaves_looks leaves_change, nofun⟩).background

/-- A turn of the background touches no element. -/
theorem untouched_runTask (id : Nat) :
    Page.Untouched s.Expects c.timeline.world
      (runTask (backend patience) { c.timeline with ready := c.timeline.ready.erase id } id).world := by
  have hqueued : Timeline.Tame (B := backend patience) s.Permits (Query.Leaves s.Expects)
      { c.timeline with ready := c.timeline.ready.erase id } := leaves_of_turns calls s h
  exact (Activity.runTask_tame leaves_tames (kept_untouched c.timeline.world) hqueued (.refl _) id).2

/-- An operation that is dropped, wherever it waits, leaves nothing behind.  At once the background
comes to rest; no element is touched any more, then or later; and when nobody else is in the
foreground, the live handles are those from before and those that other callers were given. -/
theorem left_of_dropped
    {before after : List (Member ι side.signature (Except Error (Option Handle)))}
    {m : Member ι side.signature (Except Error (Option Handle))}
    (hpending : c.running = before ++ m :: after) :
    (∃ turns last, (∀ budget, turns ≤ budget →
        giveUp (backend patience) budget m.activity c.timeline = (none, last)) ∧
      last.ready = [] ∧ last.clock = c.timeline.clock ∧
      Page.Untouched s.Expects c.timeline.world last.world ∧
      (before ++ after = [] →
        last.world.liveIds = s.page.liveIds + (c.ended.map fun e => foundIn e.outcome).sum)) ∧
    ∀ c', ReflTransGen (Crowd.Turn (backend patience) fun who => (calls who).activity (browser patience))
        (c.without before after m) c' →
      (∀ id ∈ c'.timeline.ready, Page.Untouched s.Expects c'.timeline.world
        (runTask (backend patience) { c'.timeline with ready := c'.timeline.ready.erase id } id).world) ∧
      (c'.running = [] → c'.timeline.ready = [] →
        Page.liveIds c'.timeline.world =
          s.page.liveIds + (c'.ended.map fun e => foundIn e.outcome).sum) := by
  have hdropped : ReflTransGen (Crowd.Turn (backend patience) fun who => (calls who).activity (browser patience))
      (.init (s.timeline patience)) (c.without before after m) :=
    h.tail (.drop before after m hpending)
  refine ⟨?_, fun c' hc' => ⟨fun id _ => untouched_runTask calls s (hdropped.trans hc') id,
    fun hrunning hready =>
      liveIds_of_kept (kept_of_turns s calls (hdropped.trans hc')) hready hrunning⟩⟩
  have hmem : m ∈ c.running := hpending ▸ List.mem_append_right before List.mem_cons_self
  have hlive : ∀ a, m.activity ≠ .done a := (kept_of_turns s calls h).pending hmem
  have hworld : (c.without before after m).timeline.world = c.timeline.world :=
    Activity.drop_world m.activity c.timeline
  have hturn : ∀ (tl : Timeline side.signature (backend patience).World) id rest, tl.ready = id :: rest →
      tl.Tame s.Permits (Query.Leaves s.Expects) ∧ Page.Untouched s.Expects c.timeline.world tl.world →
        (runTask (backend patience) { tl with ready := rest } id).Tame s.Permits (Query.Leaves s.Expects) ∧
          Page.Untouched s.Expects c.timeline.world (runTask (backend patience) { tl with ready := rest } id).world := by
    rintro tl id rest - ⟨hback, hkept⟩
    have hqueued : Timeline.Tame (B := backend patience) s.Permits (Query.Leaves s.Expects)
        { tl with ready := rest } := hback
    exact Activity.runTask_tame leaves_tames (kept_untouched c.timeline.world) hqueued hkept id
  obtain ⟨turns, last, hlast, hready, hclock, -, htouched⟩ :=
    Timeline.settle_rest issues_page hturn ⟨leaves_of_turns calls s hdropped, hworld ▸ Page.Untouched.refl _⟩
  have hsettled : settle (backend patience) turns (c.without before after m).timeline = last :=
    hlast turns le_rfl
  refine ⟨turns, last, fun budget hbudget => ?_, hready, ?_, htouched, fun hothers => ?_⟩
  · rw [Activity.giveUp_of_pending hlive]
    exact congrArg (Prod.mk none) (hlast budget hbudget)
  · exact hclock.trans (Timeline.drop_instant m.activity c.timeline).clock
  · have hsteps : ReflTransGen
        (Crowd.Step (backend patience) fun who => (calls who).activity (browser patience))
        (c.without before after m) { c.without before after m with
          timeline := settle (backend patience) turns (c.without before after m).timeline } :=
      Activity.settle_steps turns _ none rfl
    have hkept := kept_of_turns s calls (hdropped.trans (Crowd.turns_of_steps hsteps))
    rw [← hsettled] at hready ⊢
    exact liveIds_of_kept hkept hready hothers

end Dropped

/-- A page with an input under a selector, and a predicate that does not hold of it. -/
def droppedScene : Scene where
  page := { Page.ofElements #[.ofKind .typeableInput] with
    served := [("input", 0)]
    predicates := [("e => false", ⟨fun _ _ => false, 0⟩)]
    ledger := #[true, false] }
  clock := 0
  cancelled := false
  events := []

/-- To click whatever comes first: the input once the predicate holds, or the input. -/
def droppedCall : Call where
  locator := .race .default [.filtered .default (.node .default () "input") "e => false",
    .node .default () "input"]
  terminal := .click ClickOptions.default
  signalled := false

/-- The click, when both branches have found a handle. -/
def droppedRun : Activity.Run side.signature Page (Except Error (Option Handle)) :=
  Activity.Run.finish (backend 0) 3
    (Activity.Run.start (backend 0) (droppedCall.activity (browser 0)) (droppedScene.timeline 0) none)

/-- One handle is queued for the race and one is held by a branch that asks the predicate.  When the
click is dropped, both are released. -/
theorem left_of_droppedRun :
    (droppedRun.timeline.messages 0).length = 1 ∧
      droppedRun.timeline.world.liveIds = droppedScene.page.liveIds + {2, 3} ∧
      ∃ turns, ∀ budget, turns ≤ budget →
        (giveUp (backend 0) budget droppedRun.main droppedRun.timeline).2.world.liveIds =
          droppedScene.page.liveIds := by
  refine ⟨by decide +kernel, by decide +kernel, ?_⟩
  have hlive : ∀ a, droppedRun.main ≠ .done a := by
    intro a ha
    have hgoing : droppedRun.isDone = false := by decide +kernel
    simp [Activity.Run.isDone, ha] at hgoing
  have horderly : ∀ c : Crowd (backend 0) Unit (Except Error (Option Handle)),
      ReflTransGen (Crowd.Step (backend 0) fun _ => droppedCall.activity (browser 0))
        (.init (droppedScene.timeline 0)) c → c.timeline.Orderly :=
    fun c hc => (kept_of_steps droppedScene (fun _ => droppedCall) hc).orderly
  obtain ⟨c, hc, htimeline, hrunning, hended⟩ := Activity.pending_steps () horderly hlive
  obtain ⟨⟨turns, last, hlast, -, -, -, hids⟩, -⟩ :=
    left_of_dropped (fun _ => droppedCall) droppedScene (Crowd.turns_of_steps hc)
      (hrunning.trans (List.nil_append _).symm)
  refine ⟨turns, fun budget hbudget => ?_⟩
  have hgiven := hlast budget hbudget
  rw [htimeline] at hgiven
  have hleft := hids rfl
  rw [hended, List.map_nil, List.sum_nil, add_zero] at hleft
  exact (congrArg (fun r => Page.liveIds r.2.world) hgiven).trans hleft

end Wayfind.Simulation
