/-
Nothing is lost between a connection and a reader.

As long as the reader is there, the forwarder runs, and whatever the forwarder and the reader do, the events
on their way (`pending`) stay in their order: they become more at the end, by what is handed over, and fewer
at the front, by what the reader takes.
-/
import Wayfind.Connection.Feed

namespace Wayfind.Connection

open Protocol (Event)

namespace Feed

variable {f : Feed}

/-- The events on their way, in the order in which the reader will find them. -/
def pending (f : Feed) : List Event := f.queue ++ (f.held.toList ++ f.backlog)

/-- The reader is there, and the forwarder runs. -/
structure Live (f : Feed) : Prop where
  attended : f.attended = true
  running : f.running = true
  bounded : f.queue.length ≤ capacity

theorem live_opened : opened.Live := ⟨rfl, rfl, Nat.zero_le _⟩

/-! ### What the forwarder does -/

/-- The moves of the forwarder of a reader who is there. -/
inductive Forwards (f : Feed) : Feed → Prop
  | takes {e : Event} {rest : List Event} (hheld : f.held = none) (hbacklog : f.backlog = e :: rest) :
      Forwards f { f with backlog := rest, held := some e }
  | puts {e : Event} (hheld : f.held = some e) (hroom : f.queue.length < capacity) :
      Forwards f { f with held := none, queue := f.queue ++ [e] }
  | full {e : Event} (hheld : f.held = some e) (hfull : capacity ≤ f.queue.length) : Forwards f f
  | idle (hheld : f.held = none) (hbacklog : f.backlog = []) : Forwards f f

theorem Live.forwards (h : f.Live) : Forwards f f.forward := by
  obtain ⟨backlog, held, queue, attended, running⟩ := f
  obtain ⟨rfl, rfl, -⟩ := h
  cases held with
  | some e =>
    show Forwards _ (if queue.length < capacity then _ else _)
    by_cases hroom : queue.length < capacity
    · rw [if_pos hroom]
      exact .puts rfl hroom
    · rw [if_neg hroom]
      exact .full rfl (Nat.le_of_not_lt hroom)
  | none =>
    cases backlog with
    | nil => exact .idle rfl rfl
    | cons e rest => exact .takes rfl rfl

theorem Live.forward (h : f.Live) : f.forward.Live := by
  have hforwards := h.forwards
  generalize f.forward = after at hforwards
  cases hforwards with
  | takes | full | idle => exact ⟨h.attended, h.running, h.bounded⟩
  | puts hheld hroom => exact ⟨h.attended, h.running, by rw [List.length_append]; exact hroom⟩

theorem Live.pending_forward (h : f.Live) : f.forward.pending = f.pending := by
  have hforwards := h.forwards
  generalize f.forward = after at hforwards
  cases hforwards with
  | takes hheld hbacklog =>
    rw [pending, pending, hheld, hbacklog]
    rfl
  | puts hheld hroom =>
    rw [pending, pending, hheld, List.append_assoc]
    rfl
  | full | idle => rfl

/-! ### What the reader finds -/

theorem Live.next (h : f.Live) : f.next.2.Live ∧ f.pending = f.next.1.toList ++ f.next.2.pending := by
  unfold Feed.next
  cases hqueue : f.queue with
  | nil => exact ⟨h, rfl⟩
  | cons e rest =>
    refine ⟨⟨h.attended, h.running, ?_⟩, ?_⟩
    · have := h.bounded
      rw [hqueue, List.length_cons] at this
      exact Nat.le_of_succ_le this
    · rw [pending, hqueue]
      rfl

/-! ### What the reader waits for -/

/-- The forwarder has nothing to do: it waits for room, or everything is in the queue. -/
def Settled (f : Feed) : Prop := f.queue ≠ [] ∨ f.pending = []

/-- How many moves the forwarder can make at most. -/
def moves (f : Feed) : Nat := 2 * f.backlog.length + f.held.toList.length

/-- A move brings the forwarder nearer to the end of what it can do. -/
theorem Live.moves_forward (h : f.Live) : f.forward.moves < f.moves ∨ f.Settled := by
  have hforwards := h.forwards
  generalize f.forward = after at hforwards
  cases hforwards with
  | takes hheld hbacklog =>
    refine Or.inl ?_
    simp only [moves, hheld, hbacklog, List.length_cons, Option.toList_some, Option.toList_none, List.length_nil]
    omega
  | puts hheld hroom =>
    refine Or.inl ?_
    simp only [moves, hheld, Option.toList_some, Option.toList_none, List.length_cons, List.length_nil]
    omega
  | full hheld hfull =>
    refine Or.inr (Or.inl fun hnil => ?_)
    rw [hnil] at hfull
    exact absurd hfull (by decide)
  | idle hheld hbacklog =>
    by_cases hqueue : f.queue = []
    · exact Or.inr (Or.inr (by rw [pending, hqueue, hheld, hbacklog]; rfl))
    · exact Or.inr (Or.inl hqueue)

theorem Live.settled_forward (h : f.Live) (hsettled : f.Settled) : f.forward.Settled := by
  rcases hsettled with hqueue | hpending
  · have hforwards := h.forwards
    generalize f.forward = after at hforwards
    cases hforwards with
    | takes | full | idle => exact Or.inl hqueue
    | puts => exact Or.inl (List.append_ne_nil_of_left_ne_nil hqueue _)
  · exact Or.inr (h.pending_forward.trans hpending)

/-- Move after move, the forwarder comes to where it has nothing to do. -/
theorem Live.repeat_forward (h : f.Live) (n : Nat) :
    (Nat.repeat Feed.forward n f).Live ∧ (Nat.repeat Feed.forward n f).pending = f.pending ∧
      ((Nat.repeat Feed.forward n f).moves + n ≤ f.moves ∨ (Nat.repeat Feed.forward n f).Settled) := by
  induction n with
  | zero => exact ⟨h, rfl, Or.inl (Nat.le_refl _)⟩
  | succ n ih =>
    obtain ⟨hlive, hpending, hmoves⟩ := ih
    refine ⟨hlive.forward, hlive.pending_forward.trans hpending, ?_⟩
    show (Nat.repeat Feed.forward n f).forward.moves + (n + 1) ≤ f.moves ∨ _
    rcases hmoves with hmoves | hsettled
    · rcases hlive.moves_forward with hless | hsettled
      · exact Or.inl (by omega)
      · exact Or.inr (hlive.settled_forward hsettled)
    · exact Or.inr (hlive.settled_forward hsettled)

theorem Live.settle (h : f.Live) : f.settle.Live ∧ f.settle.pending = f.pending ∧ f.settle.Settled := by
  obtain ⟨hlive, hpending, hmoves⟩ := h.repeat_forward (2 * f.backlog.length + 1)
  refine ⟨hlive, hpending, ?_⟩
  rcases hmoves with hmoves | hsettled
  · -- So many moves leave none to be made.
    have hheld : f.held.toList.length ≤ 1 := by cases f.held <;> simp
    unfold moves at hmoves
    rcases hlive.moves_forward with hless | hsettled
    · unfold moves at hless
      omega
    · exact hsettled
  · exact hsettled

/-- A reader who lets the forwarder move finds the next events, as many as there are of them. -/
theorem Live.take (h : f.Live) (n : Nat) :
    (f.take n).2.Live ∧ (f.take n).1 = f.pending.take n ∧ (f.take n).2.pending = f.pending.drop n := by
  induction n generalizing f with
  | zero => exact ⟨h, rfl, rfl⟩
  | succ n ih =>
    obtain ⟨hlive, hpending, hsettled⟩ := h.settle
    obtain ⟨hnext, hfront⟩ := hlive.next
    rw [hpending] at hfront
    rw [Feed.take]
    cases hfound : f.settle.next with
    | mk found after =>
      rw [hfound] at hnext hfront
      cases found with
      | some e =>
        obtain ⟨hrest, htaken, hleft⟩ := ih hnext
        rw [hfront]
        exact ⟨hrest, congrArg (e :: ·) htaken, hleft⟩
      | none =>
        have hqueue : f.settle.queue = [] := by
          unfold Feed.next at hfound
          split at hfound
          · exact absurd (Prod.mk.inj hfound).1 nofun
          · assumption
        have hnil : f.pending = [] := hpending ▸ hsettled.resolve_left fun hne => hne hqueue
        have hafter : after.pending = [] := hfront.symm.trans hnil
        rw [hnil]
        exact ⟨hnext, rfl, hafter⟩

/-! ### Nearer and nearer to the reader -/

/-- The forwarder holds an event, or the queue does. -/
def IsNear (f : Feed) : Prop := f.queue ≠ [] ∨ f.held ≠ none

theorem pending_of_queue (h : f.queue ≠ []) : f.pending ≠ [] := List.append_ne_nil_of_left_ne_nil h _

theorem IsNear.pending (h : f.IsNear) : f.pending ≠ [] := by
  rcases h with hqueue | hheld
  · exact pending_of_queue hqueue
  · refine List.append_ne_nil_of_right_ne_nil _ (List.append_ne_nil_of_left_ne_nil ?_ _)
    obtain ⟨e, he⟩ := Option.ne_none_iff_exists'.mp hheld
    rw [he]
    exact nofun

/-- A move of the forwarder brings the first event one place nearer. -/
theorem Live.isNear_forward (h : f.Live) (hpending : f.pending ≠ []) : f.forward.IsNear := by
  have hforwards := h.forwards
  generalize f.forward = after at hforwards
  cases hforwards with
  | takes => exact Or.inr nofun
  | puts => exact Or.inl (List.append_ne_nil_of_right_ne_nil _ nofun)
  | full hheld => exact Or.inr (hheld ▸ nofun)
  | idle hheld hbacklog =>
    refine Or.inl fun hqueue => hpending ?_
    rw [Feed.pending, hqueue, hheld, hbacklog]
    rfl

theorem Live.queue_forward (h : f.Live) (hnear : f.IsNear) : f.forward.queue ≠ [] := by
  have hforwards := h.forwards
  generalize f.forward = after at hforwards
  cases hforwards with
  | takes hheld | idle hheld => exact hnear.resolve_right fun hne => hne hheld
  | puts => exact List.append_ne_nil_of_right_ne_nil _ nofun
  | full hheld hfull =>
    intro hqueue
    rw [hqueue] at hfull
    exact absurd hfull (by decide)

theorem next_of_queue (h : f.queue ≠ []) : f.next.1.toList ≠ [] := by
  unfold Feed.next
  split
  · exact nofun
  · exact absurd ‹_› h

/-- What becomes of a feed while the reader takes some events and others are handed over: the events stay
in their order, and the first is no farther from the reader than before, unless the reader has taken one. -/
structure Passes (f : Feed) (taken added : List Event) (after : Feed) : Prop where
  live : after.Live
  order : f.pending ++ added = taken ++ after.pending
  near : f.IsNear → taken ≠ [] ∨ after.IsNear
  queued : f.queue ≠ [] → taken ≠ [] ∨ after.queue ≠ []

namespace Passes

variable {taken added taken' added' : List Event} {after final : Feed}

theorem trans (h : f.Passes taken added after) (h' : after.Passes taken' added' final) :
    f.Passes (taken ++ taken') (added ++ added') final := by
  refine ⟨h'.live, ?_, fun hnear => ?_, fun hqueue => ?_⟩
  · calc f.pending ++ (added ++ added')
        = taken ++ (after.pending ++ added') := by rw [← List.append_assoc, h.order, List.append_assoc]
      _ = (taken ++ taken') ++ final.pending := by rw [h'.order, List.append_assoc]
  · rcases h.near hnear with htaken | hafter
    · exact Or.inl (List.append_ne_nil_of_left_ne_nil htaken _)
    · exact (h'.near hafter).imp_left (List.append_ne_nil_of_right_ne_nil _)
  · rcases h.queued hqueue with htaken | hafter
    · exact Or.inl (List.append_ne_nil_of_left_ne_nil htaken _)
    · exact (h'.queued hafter).imp_left (List.append_ne_nil_of_right_ne_nil _)

/-- Where something was on its way, the reader has taken something, or something still is. -/
theorem pending (h : f.Passes taken added after) (hpending : f.pending ≠ []) :
    taken ≠ [] ∨ after.pending ≠ [] := by
  have horder : taken ++ after.pending ≠ [] := h.order ▸ List.append_ne_nil_of_left_ne_nil hpending added
  by_cases htaken : taken = []
  · rw [htaken] at horder
    exact Or.inr horder
  · exact Or.inl htaken

end Passes

theorem Live.passes_same (h : f.Live) : f.Passes [] [] f :=
  ⟨h, List.append_nil _, Or.inr, Or.inr⟩

theorem Live.passes_offer (h : f.Live) (e : Event) :
    ∃ after, f.offer e = some after ∧ f.Passes [] [e] after := by
  refine ⟨_, if_pos h.running, ⟨h.attended, h.running, h.bounded⟩, ?_, Or.inr, Or.inr⟩
  simp only [Feed.pending, List.append_assoc, List.nil_append]

theorem Live.passes_forward (h : f.Live) : f.Passes [] [] f.forward :=
  ⟨h.forward, (List.append_nil _).trans h.pending_forward.symm,
    fun hnear => Or.inr (h.isNear_forward hnear.pending),
    fun hqueue => Or.inr (h.queue_forward (Or.inl hqueue))⟩

theorem Live.passes_next (h : f.Live) : f.Passes f.next.1.toList [] f.next.2 := by
  obtain ⟨hlive, hfront⟩ := h.next
  have hnext : f.next.1.toList ≠ [] ∨ f.next.2 = f := by
    unfold Feed.next
    split
    · exact Or.inl nofun
    · exact Or.inr rfl
  refine ⟨hlive, (List.append_nil _).trans hfront, fun hnear => ?_, fun hqueue => ?_⟩ <;>
    rcases hnext with htaken | hsame
  · exact Or.inl htaken
  · exact Or.inr (hsame.symm ▸ hnear)
  · exact Or.inl htaken
  · exact Or.inr (hsame.symm ▸ hqueue)

theorem Live.passes_take (h : f.Live) (n : Nat) : f.Passes (f.take n).1 [] (f.take n).2 := by
  cases n with
  | zero => exact h.passes_same
  | succ n =>
    obtain ⟨hlive, htaken, hleft⟩ := h.take (n + 1)
    have hsome : f.pending ≠ [] → (f.take (n + 1)).1 ≠ [] := by
      intro hpending hnil
      rw [htaken, List.take_eq_nil_iff] at hnil
      exact hnil.elim nofun hpending
    refine ⟨hlive, ?_, fun hnear => Or.inl (hsome hnear.pending),
      fun hqueue => Or.inl (hsome (pending_of_queue hqueue))⟩
    rw [htaken, hleft, List.take_append_drop, List.append_nil]

end Feed

end Wayfind.Connection
