/-
What one request changes in a timeline.

`Performs` says once what each request does; that no time passes, which activities are added and
all the rest is read off it, a case a request (`performs`).

A background activity that can go on has to be in the queue, or nobody would ever look at
it again.  `Orderly` says so, together with what the bookkeeping needs: numbers of
activities are distinct and used up, and nobody watches a token that was never made.  It
holds after every request (`perform_orderly_grown`) because whatever makes an activity able to
go on also wakes it.

While others run, an activity that waits only sees `Later` timelines: time does not go
back, no token is revived and nothing that was made disappears.
-/
import Wayfind.Activity.Timeline
import Wayfind.Proofs.Activity.Forest

namespace Wayfind.Activity.Timeline

variable {S : Signature} {World α : Type}

/-- The tokens that may interrupt an activity where it is. -/
def watched : Activity S α → List Token
  | .done _ => []
  | .ask _ watched _ _ _ => watched

/-! ### Waking -/

theorem mem_ready_wake (tl : Timeline S World) (ids : List Nat) (i : Nat) :
    i ∈ (tl.wake ids).ready ↔ i ∈ tl.ready ∨ i ∈ ids := by
  have hfold : ∀ (ids queue : List Nat),
      i ∈ ids.foldl (fun queue i => if queue.contains i then queue else queue ++ [i]) queue ↔
        i ∈ queue ∨ i ∈ ids := by
    intro ids
    induction ids with
    | nil => simp
    | cons j ids ih =>
      intro queue
      rw [List.foldl_cons, ih]
      by_cases hj : queue.contains j = true
      · rw [if_pos hj, List.mem_cons]
        have hjq : j ∈ queue := by simpa using hj
        constructor
        · rintro (h | h)
          · exact Or.inl h
          · exact Or.inr (Or.inr h)
        · rintro (h | rfl | h)
          · exact Or.inl h
          · exact Or.inl hjq
          · exact Or.inr h
      · rw [if_neg hj, List.mem_append, List.mem_singleton, List.mem_cons, or_assoc]
  exact hfold ids tl.ready

theorem mem_tasksWhere {tl : Timeline S World} {holds : Activity S Unit → Bool} {task : Task S}
    (hmem : task ∈ tl.tasks) (hholds : holds task.activity = true) :
    task.id ∈ tl.tasksWhere holds :=
  List.mem_map.mpr ⟨task, List.mem_filter.mpr ⟨hmem, hholds⟩, rfl⟩

/-! ### Order among the background activities -/

/-- The background activities are kept track of. -/
structure Orderly (tl : Timeline S World) : Prop where
  distinct : (tl.tasks.map (·.id)).Nodup
  numbered : ∀ task ∈ tl.tasks, task.id < tl.nextTask
  /-- Whoever can go on is queued. -/
  queued : ∀ task ∈ tl.tasks, tl.canResume task.activity = true → task.id ∈ tl.ready
  /-- Whoever waits watches tokens that were made. -/
  watching : ∀ task ∈ tl.tasks, task.id ∈ tl.ready ∨
    ∀ t ∈ watched task.activity, t < tl.tokens.count

/-- What an activity that waits may rely on while others run. -/
structure Later (tl after : Timeline S World) : Prop where
  clock : tl.clock ≤ after.clock
  cancelled : ∀ t, tl.isCancelled t = true → after.isCancelled t = true
  tokens : tl.tokens.count ≤ after.tokens.count
  inboxes : tl.inboxes.size ≤ after.inboxes.size

theorem Later.refl (tl : Timeline S World) : Later tl tl :=
  ⟨Nat.le_refl _, fun _ h => h, Nat.le_refl _, Nat.le_refl _⟩

theorem Later.trans {tl mid after : Timeline S World} (h : Later tl mid) (h' : Later mid after) :
    Later tl after :=
  ⟨Nat.le_trans h.clock h'.clock, fun t ht => h'.cancelled t (h.cancelled t ht),
    Nat.le_trans h.tokens h'.tokens, Nat.le_trans h.inboxes h'.inboxes⟩

/-- What a running activity leaves of a timeline: no time passes, and background activities are
only added, queued. -/
structure Grown (tl after : Timeline S World) : Prop where
  later : Later tl after
  clock : after.clock = tl.clock
  nextTask : tl.nextTask ≤ after.nextTask
  ready : ∀ i ∈ tl.ready, i ∈ after.ready
  tasks : ∃ started, after.tasks = tl.tasks ++ started ∧
    ∀ task ∈ started, task.id ∈ after.ready ∧ tl.nextTask ≤ task.id

theorem Grown.refl (tl : Timeline S World) : Grown tl tl :=
  ⟨Later.refl tl, rfl, Nat.le_refl _, fun _ h => h, [], by simp, by simp⟩

theorem Grown.trans {tl mid after : Timeline S World} (h : Grown tl mid) (h' : Grown mid after) :
    Grown tl after := by
  obtain ⟨first, hfirst, hf⟩ := h.tasks
  obtain ⟨second, hsecond, hs⟩ := h'.tasks
  refine ⟨h.later.trans h'.later, h'.clock.trans h.clock, Nat.le_trans h.nextTask h'.nextTask,
    fun i hi => h'.ready i (h.ready i hi), first ++ second, ?_, ?_⟩
  · rw [hsecond, hfirst, List.append_assoc]
  · intro task htask
    rcases List.mem_append.mp htask with htask | htask
    · exact ⟨h'.ready _ (hf task htask).1, (hf task htask).2⟩
    · exact ⟨(hs task htask).1, Nat.le_trans h.nextTask (hs task htask).2⟩

/-- The background activities are the same, and only those woken have become able to go on. -/
structure Stirred (tl after : Timeline S World) : Prop where
  tasks : after.tasks = tl.tasks
  nextTask : after.nextTask = tl.nextTask
  ready : ∀ i ∈ tl.ready, i ∈ after.ready
  tokens : tl.tokens.count ≤ after.tokens.count
  woken : ∀ task ∈ tl.tasks, after.canResume task.activity = true →
    (∀ t ∈ watched task.activity, t < tl.tokens.count) →
      tl.canResume task.activity = true ∨ task.id ∈ after.ready

theorem Orderly.stir {tl after : Timeline S World} (h : Orderly tl) (hs : Stirred tl after) :
    Orderly after := by
  refine ⟨?_, ?_, ?_, ?_⟩
  · rw [hs.tasks]; exact h.distinct
  · rw [hs.tasks, hs.nextTask]; exact h.numbered
  · intro task hmem hresume
    rw [hs.tasks] at hmem
    rcases h.watching task hmem with hready | hwatch
    · exact hs.ready _ hready
    · rcases hs.woken task hmem hresume hwatch with hold | hready
      · exact hs.ready _ (h.queued task hmem hold)
      · exact hready
  · intro task hmem
    rw [hs.tasks] at hmem
    exact (h.watching task hmem).imp (hs.ready _)
      (fun hw t ht => Nat.lt_of_lt_of_le (hw t ht) hs.tokens)

theorem Stirred.trans {tl mid after : Timeline S World} (h : Stirred tl mid)
    (h' : Stirred mid after) : Stirred tl after := by
  refine ⟨h'.tasks.trans h.tasks, h'.nextTask.trans h.nextTask,
    fun i hi => h'.ready i (h.ready i hi), Nat.le_trans h.tokens h'.tokens, ?_⟩
  intro task hmem hresume hwatch
  have hwatch' : ∀ t ∈ watched task.activity, t < mid.tokens.count := fun t ht =>
    Nat.lt_of_lt_of_le (hwatch t ht) h.tokens
  rcases h'.woken task (by rw [h.tasks]; exact hmem) hresume hwatch' with hmid | hready
  · rcases h.woken task hmem hmid hwatch with hold | hready
    · exact Or.inl hold
    · exact Or.inr (h'.ready _ hready)
  · exact Or.inr hready

theorem Stirred.refl (tl : Timeline S World) : Stirred tl tl :=
  ⟨rfl, rfl, fun _ h => h, Nat.le_refl _, fun _ _ h _ => Or.inl h⟩

theorem Orderly.fork {B : Backend S} {tl : Timeline S World} (h : Orderly tl) (job : S.Job) :
    Orderly (tl.fork B job) := by
  have hmem : ∀ {task}, task ∈ (tl.fork B job).tasks →
      task ∈ tl.tasks ∨ task = ⟨tl.nextTask, B.start job⟩ := by
    intro task ht
    simpa [Timeline.fork] using ht
  refine ⟨?_, ?_, ?_, ?_⟩
  · have hnew : tl.nextTask ∉ tl.tasks.map (·.id) := by
      intro hc
      obtain ⟨task, ht, hid⟩ := List.mem_map.mp hc
      exact Nat.lt_irrefl _ (hid ▸ h.numbered task ht)
    simp only [Timeline.fork, List.map_append, List.map_cons, List.map_nil]
    refine List.nodup_append.mpr ⟨h.distinct, List.nodup_singleton _, ?_⟩
    intro a ha b hb hab
    exact hnew (List.mem_singleton.mp hb ▸ hab ▸ ha)
  · intro task ht
    show task.id < tl.nextTask + 1
    rcases hmem ht with ht | rfl
    · exact Nat.lt_succ_of_lt (h.numbered task ht)
    · exact Nat.lt_succ_self _
  · intro task ht hresume
    show task.id ∈ tl.ready ++ [tl.nextTask]
    rcases hmem ht with ht | rfl
    · exact List.mem_append_left _ (h.queued task ht hresume)
    · exact List.mem_append_right _ (List.mem_singleton_self _)
  · intro task ht
    show task.id ∈ tl.ready ++ [tl.nextTask] ∨ _
    rcases hmem ht with ht | rfl
    · exact (h.watching task ht).imp_left (List.mem_append_left _)
    · exact Or.inl (List.mem_append_right _ (List.mem_singleton_self _))

theorem Grown.fork {B : Backend S} (tl : Timeline S World) (job : S.Job) :
    Grown tl (tl.fork B job) := by
  refine ⟨⟨Nat.le_refl _, fun _ h => h, Nat.le_refl _, Nat.le_refl _⟩, rfl, Nat.le_succ _,
    fun i hi => List.mem_append_left _ hi, [⟨tl.nextTask, B.start job⟩], rfl, ?_⟩
  intro task ht
  rw [List.mem_singleton.mp ht]
  exact ⟨List.mem_append_right _ (List.mem_singleton_self _), Nat.le_refl _⟩

theorem forkAll_orderly_grown {B : Backend S} (jobs : List S.Job) {tl : Timeline S World}
    (h : Orderly tl) : Orderly (tl.forkAll B jobs) ∧ Grown tl (tl.forkAll B jobs) := by
  induction jobs generalizing tl with
  | nil => exact ⟨h, Grown.refl tl⟩
  | cons job jobs ih =>
    obtain ⟨ho, hg⟩ := ih (h.fork job)
    exact ⟨ho, (Grown.fork tl job).trans hg⟩

/-! ### Cancelling -/

theorem isCancelled_cancelOne (tl : Timeline S World) (t u : Token) :
    (tl.cancelOne t).isCancelled u = true ↔
      (u = t ∧ u < tl.tokens.count) ∨ tl.isCancelled u = true := by
  unfold cancelOne
  split
  · rename_i ht
    constructor
    · exact Or.inr
    · rintro (⟨rfl, -⟩ | h)
      · exact ht
      · exact h
  · exact Tokens.isCancelled_mark tl.tokens t u

theorem children_cancelOne (tl : Timeline S World) (t u : Token) :
    (tl.cancelOne t).tokens.children u = tl.tokens.children u := by
  unfold cancelOne
  split
  · rfl
  · exact Tokens.children_mark _ _ _

theorem count_cancelOne (tl : Timeline S World) (t : Token) :
    (tl.cancelOne t).tokens.count = tl.tokens.count := by
  unfold cancelOne
  split
  · rfl
  · exact Tokens.count_mark _ _

/-- Everything but the tokens and the queue is as before. -/
structure SameBut (tl after : Timeline S World) : Prop where
  world : after.world = tl.world
  clock : after.clock = tl.clock
  inboxes : after.inboxes = tl.inboxes
  tasks : after.tasks = tl.tasks
  nextTask : after.nextTask = tl.nextTask

theorem SameBut.trans {tl mid after : Timeline S World} (h : SameBut tl mid)
    (h' : SameBut mid after) : SameBut tl after :=
  ⟨h'.world.trans h.world, h'.clock.trans h.clock, h'.inboxes.trans h.inboxes,
    h'.tasks.trans h.tasks, h'.nextTask.trans h.nextTask⟩

theorem cancelOne_sameBut (tl : Timeline S World) (t : Token) : SameBut tl (tl.cancelOne t) := by
  unfold cancelOne
  split <;> exact ⟨rfl, rfl, rfl, rfl, rfl⟩

theorem cancelOne_stirred (tl : Timeline S World) (t : Token) : Stirred tl (tl.cancelOne t) := by
  have hsame := cancelOne_sameBut tl t
  have hcancelled := isCancelled_cancelOne tl t
  have hcount := count_cancelOne tl t
  by_cases ht : tl.isCancelled t = true
  · rw [show tl.cancelOne t = tl by rw [cancelOne, if_pos ht]]
    exact Stirred.refl tl
  refine ⟨hsame.tasks, hsame.nextTask, ?_, Nat.le_of_eq hcount.symm, ?_⟩
  · intro i hi
    rw [cancelOne, if_neg ht]
    exact (mem_ready_wake _ _ _).mpr (Or.inl hi)
  · intro task hmem hresume _
    by_cases hw : watches t task.activity = true
    · right
      rw [cancelOne, if_neg ht]
      exact (mem_ready_wake _ _ _).mpr (Or.inr (mem_tasksWhere hmem hw))
    · left
      cases hp : task.activity with
      | done a =>
        rw [hp] at hresume
        simp [canResume] at hresume
      | ask r ws duties next stop =>
        rw [hp] at hresume hw
        simp only [canResume, Bool.or_eq_true, List.any_eq_true] at hresume ⊢
        refine hresume.imp ?_ ?_
        · rintro ⟨u, hu, huc⟩
          refine ⟨u, hu, ?_⟩
          rcases (hcancelled u).mp huc with ⟨rfl, -⟩ | hold
          · exact absurd (List.contains_iff_mem.mpr hu) hw
          · exact hold
        · simp only [messages, hsame.clock, hsame.inboxes]
          exact fun h => h

theorem cancel_fold (ts : List Token) (tl : Timeline S World) :
    Stirred tl (ts.foldl cancelOne tl) ∧ SameBut tl (ts.foldl cancelOne tl) ∧
      (ts.foldl cancelOne tl).tokens.count = tl.tokens.count ∧
      (∀ u, (ts.foldl cancelOne tl).tokens.children u = tl.tokens.children u) ∧
      ∀ u, (ts.foldl cancelOne tl).isCancelled u = true ↔
        (u ∈ ts ∧ u < tl.tokens.count) ∨ tl.isCancelled u = true := by
  induction ts generalizing tl with
  | nil =>
    exact ⟨Stirred.refl tl, ⟨rfl, rfl, rfl, rfl, rfl⟩, rfl, fun _ => rfl, fun u => by simp⟩
  | cons t ts ih =>
    obtain ⟨hs, hb, hc, hch, hi⟩ := ih (tl.cancelOne t)
    rw [List.foldl_cons]
    refine ⟨(cancelOne_stirred tl t).trans hs, (cancelOne_sameBut tl t).trans hb, ?_, ?_, ?_⟩
    · rw [hc, count_cancelOne]
    · intro u
      rw [hch, children_cancelOne]
    · intro u
      rw [hi, count_cancelOne, isCancelled_cancelOne, List.mem_cons]
      tauto

theorem cancel_stirred (tl : Timeline S World) (t : Token) : Stirred tl (tl.cancel t) :=
  (cancel_fold _ tl).1

theorem cancel_sameBut (tl : Timeline S World) (t : Token) : SameBut tl (tl.cancel t) :=
  (cancel_fold _ tl).2.1

@[simp] theorem count_cancel (tl : Timeline S World) (t : Token) :
    (tl.cancel t).tokens.count = tl.tokens.count :=
  (cancel_fold _ tl).2.2.1

@[simp] theorem children_cancel (tl : Timeline S World) (t u : Token) :
    (tl.cancel t).tokens.children u = tl.tokens.children u :=
  (cancel_fold _ tl).2.2.2.1 u

theorem isCancelled_cancel (tl : Timeline S World) (t u : Token) :
    (tl.cancel t).isCancelled u = true ↔
      (u ∈ tl.tokens.under t ∧ u < tl.tokens.count) ∨ tl.isCancelled u = true :=
  (cancel_fold _ tl).2.2.2.2 u

/-- Cancelling a token keeps the forest, in which cancellation goes downwards. -/
theorem cancel_forest {tl : Timeline S World} (h : tl.tokens.Forest) (t : Token) :
    (tl.cancel t).tokens.Forest := by
  refine ⟨?_, ?_, ?_, ?_, ?_⟩
  · intro a; rw [children_cancel]; exact h.nodup a
  · intro a; rw [children_cancel]; exact h.after a
  · intro a; rw [children_cancel, count_cancel]; exact h.made a
  · intro a b u; rw [children_cancel, children_cancel]; exact h.single a b u
  · intro a u hu ha
    rw [children_cancel] at hu
    show (tl.cancel t).isCancelled u = true
    rw [isCancelled_cancel]
    by_cases huc : tl.isCancelled u = true
    · exact Or.inr huc
    rcases (isCancelled_cancel tl t a).mp ha with ⟨ha, -⟩ | ha
    · refine Or.inl ⟨Tokens.under_closed h ha (Tokens.mem_row.mpr ⟨hu, ?_⟩), h.made a u hu⟩
      exact Bool.eq_false_iff.mpr huc
    · exact absurd (h.sealed a u hu ha) huc

theorem isCancelled_cancel_self {tl : Timeline S World} (h : tl.tokens.Forest) {t : Token}
    (ht : t < tl.tokens.count) : (tl.cancel t).isCancelled t = true :=
  (isCancelled_cancel tl t t).mpr (Or.inl ⟨Tokens.self_mem_under h t, ht⟩)

/-- Cancelling once more changes nothing. -/
theorem cancel_of_isCancelled {tl : Timeline S World} (h : tl.tokens.Forest) {t : Token}
    (ht : tl.isCancelled t = true) : tl.cancel t = tl := by
  have hrow : tl.tokens.row t = [] := by
    refine List.eq_nil_iff_forall_not_mem.mpr fun u hu => ?_
    obtain ⟨hchild, hlive⟩ := Tokens.mem_row.mp hu
    exact Bool.eq_false_iff.mp hlive (h.sealed t u hchild ht)
  have hunder : tl.tokens.under t = [t] := by
    unfold Tokens.under
    rw [hrow]
    cases tl.tokens.states.size <;> rfl
  have hone : tl.cancelOne t = tl := by
    unfold cancelOne
    rw [if_pos ht]
  unfold Timeline.cancel
  rw [hunder, List.foldl_cons, hone, List.foldl_nil]

/-! ### Any request -/

/-- A change that cancels nothing behind anybody's back, and after which only those woken can take
a message they could not take before, stirs nobody else. -/
theorem stirred_of {tl after : Timeline S World} (htasks : after.tasks = tl.tasks)
    (hnext : after.nextTask = tl.nextTask) (hready : ∀ i ∈ tl.ready, i ∈ after.ready)
    (hcount : tl.tokens.count ≤ after.tokens.count) (hclock : after.clock = tl.clock)
    (hcancelled : ∀ t < tl.tokens.count, after.isCancelled t = true → tl.isCancelled t = true)
    (hmessages : ∀ inbox, after.messages inbox ≠ [] → tl.messages inbox ≠ [] ∨
      ∀ task ∈ tl.tasks, takesFrom inbox task.activity = true → task.id ∈ after.ready) :
    Stirred tl after := by
  refine ⟨htasks, hnext, hready, hcount, ?_⟩
  intro task hmem hresume hwatch
  cases hp : task.activity with
  | done a =>
    rw [hp] at hresume
    simp [canResume] at hresume
  | ask r ws duties next stop =>
    rw [hp] at hresume hwatch
    simp only [canResume, Bool.or_eq_true, List.any_eq_true] at hresume ⊢
    rcases hresume with ⟨u, hu, huc⟩ | hwait
    · exact Or.inl (Or.inl ⟨u, hu, hcancelled u (hwatch u hu) huc⟩)
    · cases r with
      | take inbox =>
        simp only [Bool.not_eq_true', List.isEmpty_eq_false_iff] at hwait
        rcases hmessages inbox hwait with hold | hwoken
        · refine Or.inl (Or.inr ?_)
          simpa using hold
        · exact Or.inr (hwoken task hmem (by simp [hp, takesFrom]))
      | sleepUntil time =>
        rw [hclock] at hwait
        exact Or.inl (Or.inr hwait)
      | forever => simp at hwait
      | _ => exact Or.inl (Or.inr rfl)

theorem messages_modifyInbox (tl : Timeline S World) (inbox other : Inbox)
    (change : InboxState S.Message → InboxState S.Message) :
    (tl.modifyInbox inbox change).messages other =
      if other = inbox then ((tl.inboxes[inbox]?.map change).map (·.messages)).getD []
      else tl.messages other := by
  simp only [messages, modifyInbox, Array.getElem?_modify]
  by_cases h : inbox = other
  · subst h; simp
  · rw [if_neg h, if_neg (Ne.symm h)]

theorem post_orderly_grown {tl : Timeline S World} (h : Orderly tl) (inbox : Inbox)
    (m : S.Message) : Orderly (tl.post inbox m).2 ∧ Grown tl (tl.post inbox m).2 := by
  unfold post
  by_cases hopen : (tl.inboxes[inbox]?.any (!·.closed)) = true
  · rw [if_pos hopen]
    set posted := tl.modifyInbox inbox fun s => { s with messages := s.messages ++ [m] } with hp
    set woken := posted.wake (posted.tasksWhere (takesFrom inbox)) with hw
    have hready : ∀ i ∈ tl.ready, i ∈ woken.ready := fun i hi =>
      (mem_ready_wake posted _ i).mpr (Or.inl hi)
    have hs : Stirred tl woken := by
      refine stirred_of rfl rfl hready (Nat.le_refl _) rfl (fun t _ ht => ht) ?_
      intro other hne
      by_cases ho : other = inbox
      · subst ho
        refine Or.inr fun task hmem htakes => (mem_ready_wake posted _ _).mpr (Or.inr ?_)
        have hin : task ∈ posted.tasks := hmem
        exact mem_tasksWhere hin htakes
      · left
        have hmsg : woken.messages other = posted.messages other := rfl
        rw [hmsg, hp, messages_modifyInbox, if_neg ho] at hne
        exact hne
    refine ⟨h.stir hs, ⟨Nat.le_refl _, fun _ ht => ht, Nat.le_refl _, ?_⟩, rfl, Nat.le_refl _,
      hready, [], by simpa using hs.tasks, by simp⟩
    exact Nat.le_of_eq (Array.size_modify ..).symm
  · rw [if_neg hopen]
    exact ⟨h, Grown.refl tl⟩

theorem cancel_orderly_grown {tl : Timeline S World} (h : Orderly tl) (t : Token) :
    Orderly (tl.cancel t) ∧ Grown tl (tl.cancel t) := by
  have hs := cancel_stirred tl t
  have hb := cancel_sameBut tl t
  refine ⟨h.stir hs, ⟨Nat.le_of_eq hb.clock.symm, ?_, Nat.le_of_eq (count_cancel tl t).symm, ?_⟩,
    hb.clock, Nat.le_of_eq hb.nextTask.symm, hs.ready, [], by simpa using hb.tasks, by simp⟩
  · exact fun u hu => (isCancelled_cancel tl t u).mpr (Or.inr hu)
  · exact Nat.le_of_eq (congrArg Array.size hb.inboxes).symm

theorem newToken_orderly_grown {tl : Timeline S World} (h : Orderly tl) (parent : Option Token) :
    Orderly { tl with tokens := (tl.tokens.make parent).2 } ∧
      Grown tl { tl with tokens := (tl.tokens.make parent).2 } := by
  have hcount : tl.tokens.count ≤ (tl.tokens.make parent).2.count := by
    rw [Tokens.count_make]; exact Nat.le_succ _
  have hsame : ∀ t < tl.tokens.count,
      (tl.tokens.make parent).2.isCancelled t = tl.tokens.isCancelled t := fun t ht => by
    rw [Tokens.isCancelled_make, if_neg (Nat.ne_of_lt ht)]
  have hs : Stirred tl { tl with tokens := (tl.tokens.make parent).2 } := by
    refine stirred_of rfl rfl (fun _ hi => hi) hcount rfl ?_ (fun _ hm => Or.inl hm)
    intro t ht hc
    exact (hsame t ht).symm.trans hc
  refine ⟨h.stir hs, ⟨Nat.le_refl _, ?_, hcount, Nat.le_refl _⟩, rfl, Nat.le_refl _,
    fun _ hi => hi, [], by simp, by simp⟩
  intro t ht
  exact (hsame t (Tokens.lt_count_of_isCancelled ht)).trans ht

theorem messages_take {tl : Timeline S World} {inbox : Inbox} {m : S.Message}
    {rest : List S.Message} (hm : tl.messages inbox = m :: rest) (other : Inbox) :
    (tl.modifyInbox inbox fun s => { s with messages := rest }).messages other =
      if other = inbox then rest else tl.messages other := by
  rw [messages_modifyInbox]
  split
  · unfold messages at hm
    rcases hs : tl.inboxes[inbox]? with _ | s
    · rw [hs] at hm; simp at hm
    · rfl
  · rfl

theorem close_orderly_grown {B : Backend S} {tl : Timeline S World} (h : Orderly tl)
    (inbox : Inbox) : Orderly (tl.close B inbox) ∧ Grown tl (tl.close B inbox) := by
  set emptied := tl.modifyInbox inbox fun _ => ⟨[], true⟩ with he
  have hs : Stirred tl emptied := by
    refine stirred_of rfl rfl (fun _ hi => hi) (Nat.le_refl _) rfl (fun _ _ ht => ht) ?_
    intro other hne
    rw [he, messages_modifyInbox] at hne
    by_cases ho : other = inbox
    · rw [if_pos ho] at hne
      rcases hs : tl.inboxes[inbox]? with _ | s <;> simp [hs] at hne
    · rw [if_neg ho] at hne
      exact Or.inl hne
  have hg : Grown tl emptied := by
    refine ⟨⟨Nat.le_refl _, fun _ ht => ht, Nat.le_refl _, ?_⟩, rfl, Nat.le_refl _,
      fun _ hi => hi, [], by simpa using hs.tasks, by simp⟩
    exact Nat.le_of_eq (Array.size_modify ..).symm
  obtain ⟨ho, hgrow⟩ := forkAll_orderly_grown (B := B) ((tl.messages inbox).flatMap B.discard)
    (h.stir hs)
  exact ⟨ho, hg.trans hgrow⟩

/-! ### What a request does -/

/-- How a request is answered, and the timeline it leaves. -/
inductive Performs (B : Backend S) (tl : Timeline S B.World) :
    (r : Request S) → r.Answer → Timeline S B.World → Prop where
  | query (q : S.Query) : Performs B tl (.query q) (B.answer q tl.world).1
      (forkAll B { tl with world := (B.answer q tl.world).2.1 } (B.answer q tl.world).2.2)
  | clock : Performs B tl .clock tl.clock tl
  | sleepUntil {time : Nat} (h : time ≤ tl.clock) : Performs B tl (.sleepUntil time) () tl
  | fork (job : S.Job) : Performs B tl (.fork job) () (tl.fork B job)
  | newToken (parent : Option Token) : Performs B tl (.newToken parent) (tl.tokens.make parent).1
      { tl with tokens := (tl.tokens.make parent).2 }
  | isCancelled (t : Token) : Performs B tl (.isCancelled t) (tl.isCancelled t) tl
  | cancel (t : Token) : Performs B tl (.cancel t) () (tl.cancel t)
  | discard (t : Token) : Performs B tl (.discard t) () { tl with tokens := tl.tokens.discard t }
  | newInbox : Performs B tl .newInbox tl.inboxes.size
      { tl with inboxes := tl.inboxes.push ⟨[], false⟩ }
  | post (inbox : Inbox) (m : S.Message) :
      Performs B tl (.post inbox m) (tl.post inbox m).1 (tl.post inbox m).2
  | take {inbox : Inbox} {m : S.Message} {rest : List S.Message}
      (h : tl.messages inbox = m :: rest) : Performs B tl (.take inbox) m
        (tl.modifyInbox inbox fun s => { s with messages := rest })
  | close (inbox : Inbox) : Performs B tl (.close inbox) () (tl.close B inbox)
  | announce : Performs B tl .announce () { tl with announced := tl.announced + 1 }

theorem performs {B : Backend S} {tl after : Timeline S B.World} {r : Request S} {a : r.Answer}
    (hp : perform B tl r = some (a, after)) : Performs B tl r a after := by
  cases r with
  | sleepUntil time =>
    simp only [perform] at hp
    split at hp
    · obtain ⟨-, rfl⟩ := Prod.mk.inj (Option.some.inj hp)
      exact .sleepUntil ‹_›
    · cases hp
  | take inbox =>
    simp only [perform] at hp
    split at hp
    · obtain ⟨rfl, rfl⟩ := Prod.mk.inj (Option.some.inj hp)
      exact .take ‹_›
    · cases hp
  | forever => exact absurd hp.symm (Option.some_ne_none _)
  | _ =>
    obtain ⟨rfl, rfl⟩ := Prod.mk.inj (Option.some.inj hp)
    constructor

/-- Every request keeps the order among the background activities and only adds to them. -/
theorem perform_orderly_grown {B : Backend S} {tl after : Timeline S B.World} (h : Orderly tl)
    {r : Request S} {a : r.Answer} (hp : perform B tl r = some (a, after)) :
    Orderly after ∧ Grown tl after := by
  cases performs hp with
  | query q =>
    have hworld : Orderly { tl with world := (B.answer q tl.world).2.1 } :=
      ⟨h.distinct, h.numbered, h.queued, h.watching⟩
    obtain ⟨ho, hg⟩ := forkAll_orderly_grown (B := B) (B.answer q tl.world).2.2 hworld
    exact ⟨ho, ⟨⟨hg.later.clock, hg.later.cancelled, hg.later.tokens, hg.later.inboxes⟩,
      hg.clock, hg.nextTask, hg.ready, hg.tasks⟩⟩
  | clock | sleepUntil | isCancelled => exact ⟨h, Grown.refl tl⟩
  | fork job => exact ⟨h.fork job, Grown.fork tl job⟩
  | newToken parent => exact newToken_orderly_grown h parent
  | cancel t => exact cancel_orderly_grown h t
  | discard t =>
    have hsame := fun u => Tokens.isCancelled_discard tl.tokens t u
    have hcount := Tokens.count_discard tl.tokens t
    have hs : Stirred tl { tl with tokens := tl.tokens.discard t } := by
      refine stirred_of rfl rfl (fun _ hi => hi) (Nat.le_of_eq hcount.symm) rfl ?_
        (fun _ hm => Or.inl hm)
      exact fun u _ hu => (hsame u).symm.trans hu
    exact ⟨h.stir hs, ⟨Nat.le_refl _, fun u hu => (hsame u).trans hu, Nat.le_of_eq hcount.symm,
      Nat.le_refl _⟩, rfl, Nat.le_refl _, fun _ hi => hi, [], by simp, by simp⟩
  | newInbox =>
    have hs : Stirred tl { tl with inboxes := tl.inboxes.push ⟨[], false⟩ } := by
      refine stirred_of rfl rfl (fun _ hi => hi) (Nat.le_refl _) rfl (fun _ _ ht => ht) ?_
      intro inbox hne
      left
      simp only [messages, Array.getElem?_push] at hne ⊢
      split at hne
      · simp at hne
      · exact hne
    exact ⟨h.stir hs, ⟨Nat.le_refl _, fun _ ht => ht, Nat.le_refl _, by simp⟩, rfl, Nat.le_refl _,
      fun _ hi => hi, [], by simp, by simp⟩
  | post inbox m => exact post_orderly_grown h inbox m
  | @take inbox m rest hm =>
    have hs : Stirred tl (tl.modifyInbox inbox fun s => { s with messages := rest }) := by
      refine stirred_of rfl rfl (fun _ hi => hi) (Nat.le_refl _) rfl (fun _ _ ht => ht) ?_
      intro other hne
      rw [messages_take hm] at hne
      left
      split at hne
      · rename_i ho
        rw [ho, hm]
        simp
      · exact hne
    refine ⟨h.stir hs, ⟨Nat.le_refl _, fun _ ht => ht, Nat.le_refl _, ?_⟩, rfl, Nat.le_refl _,
      fun _ hi => hi, [], by simpa using hs.tasks, by simp⟩
    exact Nat.le_of_eq (Array.size_modify ..).symm
  | close inbox => exact close_orderly_grown h inbox
  | announce =>
    exact ⟨⟨h.distinct, h.numbered, h.queued, h.watching⟩,
      ⟨Nat.le_refl _, fun _ ht => ht, Nat.le_refl _, Nat.le_refl _⟩, rfl, Nat.le_refl _,
      fun _ hi => hi, [], by simp, by simp⟩

/-! ### Forking -/

/-- The jobs a request sets off. -/
def jobsOf (B : Backend S) (tl : Timeline S B.World) : Request S → List S.Job
  | .query q => (B.answer q tl.world).2.2
  | .fork job => [job]
  | .close inbox => (tl.messages inbox).flatMap B.discard
  | _ => []

theorem forkAll_activities {B : Backend S} (jobs : List S.Job) (tl : Timeline S World) :
    (tl.forkAll B jobs).tasks.map (·.activity) =
      tl.tasks.map (·.activity) ++ jobs.map B.start := by
  induction jobs generalizing tl with
  | nil => simp [forkAll]
  | cons job jobs ih =>
    have hstep : tl.forkAll B (job :: jobs) = (tl.fork B job).forkAll B jobs := rfl
    rw [hstep, ih]
    simp [Timeline.fork]

/-- Forking changes nothing but the background activities and their queue. -/
theorem forkAll_keeps {B : Backend S} (jobs : List S.Job) (tl : Timeline S World) :
    (tl.forkAll B jobs).world = tl.world ∧ (tl.forkAll B jobs).clock = tl.clock ∧
      (tl.forkAll B jobs).tokens = tl.tokens ∧ (tl.forkAll B jobs).inboxes = tl.inboxes := by
  induction jobs generalizing tl with
  | nil => exact ⟨rfl, rfl, rfl, rfl⟩
  | cons job jobs ih => exact ih (tl.fork B job)

/-- No time passes at a request. -/
theorem perform_clock {B : Backend S} {tl after : Timeline S B.World} {r : Request S} {a : r.Answer}
    (hp : perform B tl r = some (a, after)) : after.clock = tl.clock := by
  cases performs hp with
  | query | close => exact (forkAll_keeps _ _).2.1
  | cancel t => exact (cancel_sameBut tl t).clock
  | post inbox m =>
    unfold post
    split <;> rfl
  | _ => rfl

/-- A request adds the activities of the jobs it sets off, and no others. -/
theorem perform_activities {B : Backend S} {tl after : Timeline S B.World} {r : Request S}
    {a : r.Answer} (hp : perform B tl r = some (a, after)) :
    after.tasks.map (·.activity) = tl.tasks.map (·.activity) ++ (jobsOf B tl r).map B.start := by
  cases performs hp with
  | query | close => exact forkAll_activities _ _
  | fork job => exact forkAll_activities [job] tl
  | cancel t => simp [jobsOf, (cancel_sameBut tl t).tasks]
  | post inbox m =>
    unfold post
    split <;> simp [jobsOf, wake, modifyInbox]
  | _ => simp [jobsOf, modifyInbox]

end Wayfind.Activity.Timeline
