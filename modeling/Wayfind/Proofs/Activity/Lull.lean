/-
At every instant the background comes to rest.

No time passes while somebody can go on, and the foreground goes on only when the queue is
empty.  So whoever waits for something that has happened already still depends on the
background: it might go on at this instant for ever, each turn waking somebody else.

It does not, for activities are trees.  A turn leaves less of an activity than there was, and
sets its jobs beside it; with jobs that are smaller too, the bag of all activities in the
background descends in the order of multisets (`Relation.CutExpand`).  A turn that moves
nobody only makes the queue shorter.  `Run.lull` is what follows: after some turns the queue
is empty, and what every turn keeps still holds.
-/
import Mathlib.Logic.Hydra
import Wayfind.Proofs.Activity.Crowd
import Wayfind.Proofs.Activity.Steady

namespace Wayfind.Activity

open Timeline (advance resume runTask jobsOf)
open Relation (TransGen ReflTransGen CutExpand)

variable {S : Signature} {B : Backend S} {α : Type}

/-! ### What a request leaves -/

/-- What may be left of an activity after one request, and what the request may set off. -/
inductive Issues (B : Backend S) : Activity S Unit → Activity S Unit → Prop
  | next {r : Request S} {ws : List Token} {duties : List (Duty S)} {next : r.Answer → Activity S Unit}
      {stop : (t : Token) → t ∈ ws → Activity S Unit} (a : r.Answer) :
      Issues B (next a) (.ask r ws duties next stop)
  | stop {r : Request S} {ws : List Token} {duties : List (Duty S)} {next : r.Answer → Activity S Unit}
      {stop : (t : Token) → t ∈ ws → Activity S Unit} (t : Token) (h : t ∈ ws) :
      Issues B (stop t h) (.ask r ws duties next stop)
  | job {r : Request S} {ws : List Token} {duties : List (Duty S)} {next : r.Answer → Activity S Unit}
      {stop : (t : Token) → t ∈ ws → Activity S Unit} {tl : Timeline S B.World} {job : S.Job}
      (h : job ∈ jobsOf B tl r) : Issues B (B.start job) (.ask r ws duties next stop)

/-- What sets off only what comes to an end comes to an end. -/
theorem acc_issues {p : Activity S Unit}
    (hjobs : Asks (fun r => ∀ tl, ∀ job ∈ jobsOf B tl r, Acc (Issues B) (B.start job)) p) :
    Acc (Issues B) p := by
  induction p with
  | done a => exact ⟨_, nofun⟩
  | ask r ws duties next stop ihn ihs =>
    refine ⟨_, fun q hq => ?_⟩
    cases hq with
    | next a => exact ihn a (hjobs.2.1 a)
    | stop t h => exact ihs t h (hjobs.2.2 t h)
    | job h => exact hjobs.1.1 _ _ h

/-- Activities come to an end when jobs set off only jobs of a lower rank. -/
theorem issues_wellFounded (rank : S.Job → Nat)
    (h : ∀ job, Asks (fun r => ∀ tl, ∀ j ∈ jobsOf B tl r, rank j < rank job) (B.start job)) :
    WellFounded (Issues B) := by
  have hjobs : ∀ n job, rank job < n → Acc (Issues B) (B.start job) := by
    intro n
    induction n with
    | zero => exact fun job hrank => absurd hrank (Nat.not_lt_zero _)
    | succ n ih =>
      intro job hrank
      exact acc_issues ((h job).mono fun r hr tl j hj =>
        ih j (Nat.lt_of_lt_of_le (hr tl j hj) (Nat.le_of_lt_succ hrank)))
  exact ⟨fun p => acc_issues (asks_of_forall (fun r tl j _ => hjobs _ j (Nat.lt_succ_self _)) p)⟩

/-! ### The bag of background activities -/

namespace Timeline

/-- The background activities, in no order. -/
def bag {World : Type} (tl : Timeline S World) : Multiset (Activity S Unit) :=
  ↑(tl.tasks.map (·.activity))

/-- The activity went on: what is left of it and the jobs it set off came out of it. -/
structure Went (B : Backend S) (p : Activity S Unit) (tl : Timeline S B.World)
    (q : Activity S Unit) (after : Timeline S B.World) (new : List (Activity S Unit)) : Prop where
  bag : after.bag = tl.bag + ↑new
  left : TransGen (Issues B) q p
  jobs : ∀ x ∈ new, TransGen (Issues B) x p

variable {tl : Timeline S B.World}

theorem perform_bag {after : Timeline S B.World} {r : Request S} {a : r.Answer}
    (hp : perform B tl r = some (a, after)) :
    after.bag = tl.bag + ↑((jobsOf B tl r).map B.start) := by
  unfold bag
  rw [perform_activities hp, Multiset.coe_add]

/-- An activity stays where it is and changes nothing, or goes on. -/
theorem advance_went (p : Activity S Unit) (tl : Timeline S B.World) :
    advance B p tl = (p, tl) ∨ ∃ new, Went B p tl (advance B p tl).1 (advance B p tl).2 new := by
  induction p generalizing tl with
  | done a => exact Or.inl rfl
  | ask r ws duties next stop ihn ihs =>
    rcases hp : perform B tl r with _ | ⟨a, after⟩
    · left
      simp only [advance, hp]
    · right
      have hbag := perform_bag hp
      have hnext : Issues B (next a) (.ask r ws duties next stop) := .next a
      have hjobs : ∀ x ∈ (jobsOf B tl r).map B.start,
          TransGen (Issues B) x (.ask r ws duties next stop) := by
        intro x hx
        obtain ⟨job, hjob, rfl⟩ := List.mem_map.mp hx
        exact .single (.job hjob)
      simp only [advance, hp]
      rcases ihn a after with hsame | ⟨new, hnew⟩
      · rw [hsame]
        exact ⟨_, hbag, .single hnext, hjobs⟩
      · refine ⟨(jobsOf B tl r).map B.start ++ new, ?_, hnew.left.tail hnext, fun x hx => ?_⟩
        · rw [hnew.bag, hbag, ← Multiset.coe_add, add_assoc]
        · exact (List.mem_append.mp hx).elim (hjobs x) fun hx => (hnew.jobs x hx).tail hnext

/-- To resume an activity is to go on with it, or with what is to be done when it is interrupted. -/
theorem resume_eq_advance {K : Activity S α → Prop} {p : Activity S α} (tl : Timeline S B.World)
    (hp : K p) (hstop : ∀ r ws duties next stop, p = .ask r ws duties next stop →
      ∀ t h, K (stop t h)) :
    ∃ q, K q ∧ resume B p tl = advance B q tl := by
  cases p with
  | done a => exact ⟨.done a, hp, rfl⟩
  | ask r ws duties next stop =>
    simp only [resume]
    split
    · exact ⟨_, hstop r ws duties next stop rfl _ _, rfl⟩
    · exact ⟨_, hp, rfl⟩

theorem resume_went (p : Activity S Unit) (tl : Timeline S B.World) :
    resume B p tl = (p, tl) ∨ ∃ new, Went B p tl (resume B p tl).1 (resume B p tl).2 new := by
  cases p with
  | done a => exact Or.inl rfl
  | ask r ws duties next stop =>
    simp only [resume]
    split
    · rename_i t ht
      right
      have hstop : Issues B (stop t (List.mem_of_find?_eq_some ht)) (.ask r ws duties next stop) :=
        .stop t _
      rcases advance_went (stop t (List.mem_of_find?_eq_some ht)) tl with hsame | ⟨new, hnew⟩
      · rw [hsame]
        exact ⟨[], (add_zero _).symm, .single hstop, fun _ hx => absurd hx List.not_mem_nil⟩
      · exact ⟨new, hnew.bag, hnew.left.tail hstop, fun x hx => (hnew.jobs x hx).tail hstop⟩
    · exact advance_went _ tl

/-! ### Descent -/

/-- The bag has descended, or it is the same and the queue is shorter. -/
def Below (B : Backend S) : Timeline S B.World → Timeline S B.World → Prop :=
  InvImage (Prod.Lex (TransGen (CutExpand (TransGen (Issues B)))) (· < ·))
    fun tl => (tl.bag, tl.ready.length)

theorem below_wellFounded (h : WellFounded (Issues B)) : WellFounded (Below B) :=
  have : Std.Irrefl (TransGen (Issues B)) := ⟨h.transGen.irrefl.irrefl⟩
  InvImage.wf _ (h.transGen.cutExpand.transGen.prod_lex Nat.lt_wfRel.wf)

/-- To take activities out of the bag is a descent. -/
theorem descend_of_le {γ : Type} {r : γ → γ → Prop} {s t : Multiset γ} (h : s ≤ t) :
    ReflTransGen (CutExpand r) s t := by
  obtain ⟨u, rfl⟩ := Multiset.le_iff_exists_add.mp h
  clear h
  induction u using Multiset.induction with
  | empty => rw [add_zero]
  | cons a u ih =>
    refine ih.tail ⟨0, a, nofun, ?_⟩
    rw [add_zero, Multiset.add_cons, add_comm, Multiset.singleton_add]

/-- To put what came out of an activity in its place is a descent. -/
theorem descend_of_went {γ : Type} {r : γ → γ → Prop} {s t : Multiset γ} {p : γ}
    (ht : ∀ x ∈ t, r x p) : CutExpand r (s + t) (p ::ₘ s) :=
  ⟨t, p, ht, by rw [← Multiset.singleton_add, add_right_comm, add_comm s {p}]⟩

/-- An activity and all others are in the bag. -/
theorem cons_bag_le {id : Nat} {task : Task S}
    (hfind : tl.tasks.find? (fun t => t.id == id) = some task) :
    task.activity ::ₘ ({ tl with tasks := tl.tasks.filter (·.id != id) } : Timeline S B.World).bag ≤
      tl.bag := by
  obtain ⟨hid, before, after, hsplit, -⟩ := List.find?_eq_some_iff_append.mp hfind
  have hid : task.id = id := by simpa using hid
  have htasks : task ::ₘ ↑(tl.tasks.filter (·.id != id)) ≤ (↑tl.tasks : Multiset (Task S)) := by
    rw [hsplit, List.filter_append, List.filter_cons, if_neg (by simp [hid]), ← List.filter_append,
      Multiset.cons_coe, Multiset.coe_le]
    exact ((List.subperm_cons task).mpr List.filter_sublist.subperm).trans
      List.perm_middle.symm.subperm
  have hle := Multiset.map_le_map (f := fun t : Task S => t.activity) htasks
  rwa [Multiset.map_cons] at hle

/-- What is left of an activity after its turn has joined the others again. -/
structure Rejoined (p : Activity S Unit) (after last : Timeline S B.World) : Prop where
  bag : last.bag ≤ after.bag + {p}
  ready : last.ready = after.ready
  inboxes : last.inboxes = after.inboxes
  clock : last.clock = after.clock
  world : last.world = after.world

theorem runTask_rejoined {id : Nat} {task : Task S}
    (hfind : tl.tasks.find? (fun t => t.id == id) = some task) {p : Activity S Unit}
    {after : Timeline S B.World}
    (hp : resume B task.activity { tl with tasks := tl.tasks.filter (·.id != id) } = (p, after)) :
    Rejoined p after (runTask B tl id) := by
  obtain ⟨hdone, hrests⟩ := runTask_of_find hfind hp
  cases p with
  | done a =>
    rw [hdone rfl]
    exact ⟨Multiset.le_add_right _ _, rfl, rfl, rfl, rfl⟩
  | ask r ws duties next stop =>
    rw [hrests nofun]
    exact ⟨by simp [Timeline.bag, ← Multiset.coe_add], rfl, rfl, rfl, rfl⟩

theorem runTask_of_find_none {id : Nat} (hfind : tl.tasks.find? (fun t => t.id == id) = none) :
    runTask B tl id = tl := by
  unfold runTask
  rw [hfind]

/-- A turn of a background activity is a descent. -/
theorem runTask_below {id : Nat} {rest : List Nat} (hready : tl.ready = id :: rest) :
    Below B (runTask B { tl with ready := rest } id) tl := by
  have hshorter : rest.length < tl.ready.length := by
    rw [hready]
    exact Nat.lt_succ_self _
  set queued : Timeline S B.World := { tl with ready := rest } with hqueued
  rcases hfind : queued.tasks.find? (fun t => t.id == id) with _ | task
  · rw [runTask_of_find_none hfind]
    exact Prod.Lex.right _ hshorter
  set others : Timeline S B.World :=
    { queued with tasks := queued.tasks.filter (·.id != id) } with hothers
  have hsub : task.activity ::ₘ others.bag ≤ tl.bag := cons_bag_le hfind
  rcases hp : resume B task.activity others with ⟨p, after⟩
  have hrejoined := runTask_rejoined hfind hp
  have hwent := resume_went task.activity others
  rw [hp] at hwent
  rcases hwent with hsame | ⟨new, hnew⟩
  · obtain ⟨rfl, rfl⟩ := Prod.mk.inj hsame
    have hle := (hrejoined.bag.trans (by rw [add_comm, Multiset.singleton_add])).trans hsub
    rcases Relation.reflTransGen_iff_eq_or_transGen.mp
        (descend_of_le (r := TransGen (Issues B)) hle) with heq | hlt
    · unfold Below InvImage
      dsimp only
      rw [hrejoined.ready, ← heq]
      exact Prod.Lex.right _ hshorter
    · exact Prod.Lex.left _ _ hlt
  · have hmoved : CutExpand (TransGen (Issues B)) (others.bag + (↑new + {p}))
        (task.activity ::ₘ others.bag) := by
      refine descend_of_went fun x hx => ?_
      rcases Multiset.mem_add.mp hx with hx | hx
      · exact hnew.jobs x hx
      · rw [Multiset.mem_singleton.mp hx]
        exact hnew.left
    rw [← add_assoc, ← hnew.bag] at hmoved
    exact Prod.Lex.left _ _ (TransGen.trans_right (descend_of_le hrejoined.bag)
      (TransGen.trans_left (.single hmoved) (descend_of_le hsub)))

/-! ### The instant -/

/-- No time has passed, and no inbox has disappeared. -/
structure Instant {World : Type} (tl after : Timeline S World) : Prop where
  clock : after.clock = tl.clock
  inboxes : tl.inboxes.size ≤ after.inboxes.size

theorem Instant.trans {World : Type} {tl mid after : Timeline S World} (h : Instant tl mid)
    (h' : Instant mid after) : Instant tl after :=
  ⟨h'.clock.trans h.clock, h.inboxes.trans h'.inboxes⟩

theorem forkAll_clock (jobs : List S.Job) (tl : Timeline S B.World) :
    (tl.forkAll B jobs).clock = tl.clock := by
  induction jobs generalizing tl with
  | nil => rfl
  | cons job rest ih => exact ih (tl.fork B job)

theorem forkAll_inboxes (jobs : List S.Job) (tl : Timeline S B.World) :
    (tl.forkAll B jobs).inboxes = tl.inboxes := by
  induction jobs generalizing tl with
  | nil => rfl
  | cons job rest ih => exact ih (tl.fork B job)

theorem perform_instant {after : Timeline S B.World} {r : Request S} {a : r.Answer}
    (hp : perform B tl r = some (a, after)) : Instant tl after := by
  cases performs hp with
  | query q => exact ⟨forkAll_clock _ _, by rw [forkAll_inboxes]⟩
  | cancel t =>
    have hsame := cancel_sameBut tl t
    exact ⟨hsame.clock, Nat.le_of_eq (congrArg Array.size hsame.inboxes).symm⟩
  | newInbox => exact ⟨rfl, by simp⟩
  | post inbox m =>
    unfold post
    split
    · exact ⟨rfl, Nat.le_of_eq (Array.size_modify ..).symm⟩
    · exact ⟨rfl, Nat.le_refl _⟩
  | take => exact ⟨rfl, Nat.le_of_eq (Array.size_modify ..).symm⟩
  | close inbox =>
    refine ⟨forkAll_clock _ _, Nat.le_of_eq ?_⟩
    rw [Timeline.close, forkAll_inboxes]
    exact (Array.size_modify ..).symm
  | _ => exact ⟨rfl, Nat.le_refl _⟩

theorem advance_instant (p : Activity S α) (tl : Timeline S B.World) :
    Instant tl (advance B p tl).2 := by
  induction p generalizing tl with
  | done a => exact ⟨rfl, Nat.le_refl _⟩
  | ask r ws duties next stop ihn ihs =>
    rcases hp : perform B tl r with _ | ⟨a, after⟩
    · simp only [advance, hp]
      exact ⟨rfl, Nat.le_refl _⟩
    · simp only [advance, hp]
      exact (perform_instant hp).trans (ihn a after)

theorem drop_instant (p : Activity S α) (tl : Timeline S B.World) : Instant tl (drop B p tl) := by
  cases p with
  | done a => exact ⟨rfl, Nat.le_refl _⟩
  | ask r ws duties next stop => exact advance_instant _ tl

theorem resume_instant (p : Activity S α) (tl : Timeline S B.World) :
    Instant tl (resume B p tl).2 := by
  obtain ⟨q, -, hq⟩ := resume_eq_advance (K := fun _ => True) (p := p) tl trivial
    fun _ _ _ _ _ _ _ _ => trivial
  rw [hq]
  exact advance_instant q tl

theorem runTask_instant (tl : Timeline S B.World) (id : Nat) : Instant tl (runTask B tl id) := by
  rcases hfind : tl.tasks.find? (fun t => t.id == id) with _ | task
  · rw [runTask_of_find_none hfind]
    exact ⟨rfl, Nat.le_refl _⟩
  · set others : Timeline S B.World := { tl with tasks := tl.tasks.filter (·.id != id) }
    have hrejoined := runTask_rejoined hfind (Prod.mk.eta (p := resume B task.activity others)).symm
    have hinstant := resume_instant task.activity others
    exact ⟨hrejoined.clock.trans hinstant.clock,
      hinstant.inboxes.trans (Nat.le_of_eq (congrArg Array.size hrejoined.inboxes.symm))⟩

end Timeline

/-! ### Runs -/

namespace Run

theorem finish_of_step {run next : Run S B.World α} (h : run.step B = some next) (budget : Nat) :
    run.finish B (budget + 1) = next.finish B budget := by
  rw [finish, h]

theorem finish_of_step_none {run : Run S B.World α} (h : run.step B = none) (budget : Nat) :
    run.finish B budget = run := by
  cases budget with
  | zero => rfl
  | succ budget => rw [finish, h]

theorem finish_add (first second : Nat) (run : Run S B.World α) :
    run.finish B (first + second) = (run.finish B first).finish B second := by
  induction first generalizing run with
  | zero => rw [Nat.zero_add, finish]
  | succ first ih =>
    rcases hstep : run.step B with _ | next
    · rw [finish_of_step_none hstep, finish_of_step_none hstep, finish_of_step_none hstep]
    · rw [Nat.succ_add, finish_of_step hstep, finish_of_step hstep, ih]

theorem step_of_ready {run : Run S B.World α} {id : Nat} {rest : List Nat}
    (h : run.timeline.ready = id :: rest) :
    run.step B =
      some { run with timeline := runTask B { run.timeline with ready := rest } id } := by
  simp only [step, h]

/-- When the queue is empty it is the foreground's turn. -/
theorem step_of_canResume {run : Run S B.World α} (hready : run.timeline.ready = [])
    (hcan : run.timeline.canResume run.main = true) :
    run.step B = some { run with
      main := (resume B run.main run.timeline).1
      timeline := (resume B run.main run.timeline).2 } := by
  have hgoing : run.isDone = false := by
    unfold isDone
    split
    · rename_i a hmain
      rw [hmain] at hcan
      exact absurd hcan Bool.false_ne_true
    · rfl
  simp only [step, hready, hgoing, hcan, if_true, Bool.false_eq_true, if_false]

/-- After some turns the queue is empty, nobody but the background has gone on, and what every
turn of the background keeps still holds. -/
theorem lull (hissues : WellFounded (Issues B)) {K : Timeline S B.World → Prop}
    (hK : ∀ tl id rest, tl.ready = id :: rest → K tl → K (runTask B { tl with ready := rest } id))
    (run : Run S B.World α) (h : K run.timeline) :
    ∃ turns tl, run.finish B turns = { run with timeline := tl } ∧ tl.ready = [] ∧ K tl := by
  obtain ⟨main, tl, limit⟩ := run
  induction tl using (Timeline.below_wellFounded hissues).induction with
  | _ tl ih =>
    rcases hready : tl.ready with _ | ⟨id, rest⟩
    · exact ⟨0, tl, rfl, hready, h⟩
    · obtain ⟨turns, last, hlast, hempty, hkept⟩ :=
        ih _ (Timeline.runTask_below hready) (hK tl id rest hready h)
      exact ⟨turns + 1, last, (finish_of_step (step_of_ready hready) turns).trans hlast, hempty, hkept⟩

/-- When the foreground has ended, time stands still. -/
theorem finish_of_done {a : α} (budget : Nat) {run : Run S B.World α} (h : run.main = .done a) :
    (run.finish B budget).main = .done a ∧
      (run.finish B budget).timeline.clock = run.timeline.clock := by
  induction budget generalizing run with
  | zero => exact ⟨h, rfl⟩
  | succ budget ih =>
    rcases hready : run.timeline.ready with _ | ⟨id, rest⟩
    · have hover : run.step B = none := by simp only [step, hready, isDone, h, if_true]
      rw [finish_of_step_none hover]
      exact ⟨h, rfl⟩
    · rw [finish_of_step (step_of_ready hready)]
      have hnext : ({ run with timeline := runTask B { run.timeline with ready := rest } id } :
          Run S B.World α).main = .done a := h
      exact ⟨(ih hnext).1, (ih hnext).2.trans (Timeline.runTask_instant _ id).clock⟩

end Run

/-- The background settles: however many more turns it is given, it comes to the same rest.  No
time passes, and what every turn of the background keeps still holds. -/
theorem Timeline.settle_rest (hissues : WellFounded (Issues B)) {K : Timeline S B.World → Prop}
    (hK : ∀ tl id rest, tl.ready = id :: rest → K tl → K (runTask B { tl with ready := rest } id))
    {tl : Timeline S B.World} (h : K tl) :
    ∃ turns last, (∀ budget, turns ≤ budget → settle B budget tl = last) ∧ last.ready = [] ∧
      last.clock = tl.clock ∧ K last := by
  obtain ⟨turns, last, hlast, hready, hkept⟩ :=
    Run.lull hissues hK (⟨Activity.done (), tl, none⟩ : Run S B.World Unit) h
  have hidle : (⟨Activity.done (), tl, none⟩ : Run S B.World Unit).main = .done () := rfl
  have hclock := (Run.finish_of_done turns hidle).2
  rw [hlast] at hclock
  refine ⟨turns, last, fun budget hbudget => ?_, hready, hclock, hkept⟩
  obtain ⟨more, rfl⟩ := Nat.exists_eq_add_of_le hbudget
  have hover : Run.step B (⟨Activity.done (), last, none⟩ : Run S B.World Unit) = none := by
    simp [Run.step, hready, Run.isDone]
  unfold settle
  rw [Run.finish_add, hlast, Run.finish_of_step_none hover]

/-- A foreground activity that has ended after some turns is what a run with as many turns comes
to, at that instant. -/
theorem Timeline.run_of_done {turns : Nat} {p : Activity S α} {tl : Timeline S B.World} {a : α}
    (h : (Run.finish B turns (Run.start B p tl none)).main = .done a) {budget : Nat}
    (hbudget : turns ≤ budget) :
    (run B budget p tl).1 = some a ∧
      (run B budget p tl).2.clock = (Run.finish B turns (Run.start B p tl none)).timeline.clock := by
  obtain ⟨more, rfl⟩ := Nat.exists_eq_add_of_le hbudget
  obtain ⟨hmain, hclock⟩ := Run.finish_of_done more h
  rw [← Run.finish_add] at hmain hclock
  unfold run
  dsimp only
  rw [hmain, ← hclock]
  refine ⟨rfl, ?_⟩
  have hidle : (⟨Activity.done (), (Run.finish B (turns + more) (Run.start B p tl none)).timeline,
      none⟩ : Run S B.World Unit).main = .done () := rfl
  exact (Run.finish_of_done (turns + more) hidle).2

end Wayfind.Activity
