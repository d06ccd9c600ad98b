/-
Activities that claim only what has happened.

A `Testimony` tells what has happened, and what every answer adds to it; what has happened
cannot be undone.  Some requests claim something of the past: that a message may be sent, or a
job be forked.  An activity is `Honest` when all its claims are true at the time, however much
others have added in the meantime.  Since the background is forked by honest requests it is
honest as well, and so everybody remains beside it (`Run.Borne.finish`).
-/
import Mathlib.Order.Basic
import Wayfind.Proofs.Activity.Lull
import Wayfind.Proofs.Page.Asking
import Wayfind.Locator.Interrupt

namespace Wayfind.Activity

open PageSide (Action)
open Timeline (advance resume runTask jobsOf)

/-- What has happened, and what is claimed of it. -/
structure Testimony (S : Signature) where
  Past : Type
  /-- What has happened earlier has happened later. -/
  [order : Preorder Past]
  /-- What is left to whoever makes a request. -/
  Choice : Type
  [nonempty : Nonempty Choice]
  /-- What the request claims holds. -/
  Holds : Past → Request S → Prop
  /-- What has happened when the request has been answered. -/
  Adds : Choice → Past → (r : Request S) → r.Answer → Past → Prop
  grows : ∀ {choice past} {r : Request S} {a : r.Answer} {now}, Adds choice past r a now → past ≤ now

attribute [instance] Testimony.order Testimony.nonempty

/-- A request that claims nothing. -/
def Testimony.Plain {S : Signature} (C : Testimony S) (r : Request S) : Prop := ∀ now, C.Holds now r

section Honest

variable {S : Signature} {C : Testimony S} {α β : Type}

/-- After what has happened the activity claims only what is so, and ends as it should.  Whoever
fulfils its duties claims nothing. -/
def Honest (C : Testimony S) (Q : C.Past → α → Prop) : C.Past → Activity S α → Prop
  | past, .done a => ∀ now ≥ past, Q now a
  | past, .ask r _ duties next stop =>
    (∀ d ∈ duties, C.Plain d.request) ∧
    (∃ choice, ∀ now ≥ past, C.Holds now r ∧
      ∀ a later, C.Adds choice now r a later → Honest C Q later (next a)) ∧
    ∀ t h, Honest C Q past (stop t h)

variable {Q : C.Past → α → Prop} {past now : C.Past} {p : Activity S α}

/-- What was so is so later. -/
theorem Honest.later (h : Honest C Q past p) (hle : past ≤ now) : Honest C Q now p := by
  induction p generalizing past now with
  | done a => exact fun later hlater => h later (hle.trans hlater)
  | ask r ws duties next stop ihn ihs =>
    obtain ⟨hduties, ⟨choice, hnext⟩, hstop⟩ := h
    exact ⟨hduties, ⟨choice, fun later hlater => hnext later (hle.trans hlater)⟩,
      fun t ht => ihs t ht (hstop t ht) hle⟩

theorem Honest.mono {Q' : C.Past → α → Prop} (h : Honest C Q past p)
    (hQ : ∀ now ≥ past, ∀ a, Q now a → Q' now a) : Honest C Q' past p := by
  induction p generalizing past with
  | done a => exact fun now hle => hQ now hle a (h now hle)
  | ask r ws duties next stop ihn ihs =>
    obtain ⟨hduties, ⟨choice, hnext⟩, hstop⟩ := h
    refine ⟨hduties, ⟨choice, fun now hle => ⟨(hnext now hle).1, fun a later hadds => ?_⟩⟩,
      fun t ht => ihs t ht (hstop t ht) hQ⟩
    exact ihn a ((hnext now hle).2 a later hadds) fun last hlast =>
      hQ last ((hle.trans (C.grows hadds)).trans hlast)

theorem honest_bind {Q : C.Past → β → Prop} {f : α → Activity S β}
    (h : Honest C (fun now a => Honest C Q now (f a)) past p) : Honest C Q past (bind p f) := by
  induction p generalizing past with
  | done a => exact h past le_rfl
  | ask r ws duties next stop ihn ihs =>
    obtain ⟨hduties, ⟨choice, hnext⟩, hstop⟩ := h
    refine ⟨hduties, ⟨choice, fun now hle => ⟨(hnext now hle).1, fun a later hadds => ?_⟩⟩,
      fun t ht => ihs t ht (hstop t ht)⟩
    exact ihn a ((hnext now hle).2 a later hadds)

theorem Honest.protect (h : Honest C Q past p) {duties : List (Duty S)}
    (hduties : ∀ d ∈ duties, C.Plain d.request) : Honest C Q past (protect duties p) := by
  induction p generalizing past with
  | done a => exact h
  | ask r ws own next stop ihn ihs =>
    obtain ⟨hown, ⟨choice, hnext⟩, hstop⟩ := h
    refine ⟨fun d hd => (List.mem_append.mp hd).elim (hown d) (hduties d),
      ⟨choice, fun now hle => ⟨(hnext now hle).1, fun a later hadds => ?_⟩⟩, fun t ht => ihs t ht (hstop t ht)⟩
    exact ihn a ((hnext now hle).2 a later hadds)

theorem honest_perform {Q : C.Past → β → Prop} {r : Request S} {f : r.Answer → Activity S β}
    (choice : C.Choice) (hr : ∀ now ≥ past, C.Holds now r)
    (hf : ∀ now ≥ past, ∀ a later, C.Adds choice now r a later → Honest C Q later (f a)) :
    Honest C Q past (bind (perform r) f) :=
  honest_bind ⟨nofun, ⟨choice, fun now hle => ⟨hr now hle, fun a later hadds _ hlast =>
    (hf now hle a later hadds).later hlast⟩⟩, fun _ h => absurd h List.not_mem_nil⟩

/-- After a request that claims nothing no less has happened. -/
theorem honest_plain {Q : C.Past → β → Prop} {r : Request S} {f : r.Answer → Activity S β} (hr : C.Plain r)
    (hf : ∀ now ≥ past, ∀ a, Honest C Q now (f a)) : Honest C Q past (bind (perform r) f) := by
  obtain ⟨choice⟩ := C.nonempty
  exact honest_perform choice (fun now _ => hr now) fun now hle a later hadds =>
    hf later (hle.trans (C.grows hadds)) a

/-- Who claims nothing is honest. -/
theorem honest_of_asks (hp : Asks C.Plain p) (hQ : ∀ now ≥ past, ∀ a, Q now a) : Honest C Q past p := by
  obtain ⟨choice⟩ := C.nonempty
  induction p generalizing past with
  | done a => exact fun now hle => hQ now hle a
  | ask r ws duties next stop ihn ihs =>
    refine ⟨hp.1.2, ⟨choice, fun now hle => ⟨hp.1.1 now, fun a later hadds => ?_⟩⟩,
      fun t ht => ihs t ht (hp.2.2 t ht) hQ⟩
    exact ihn a (hp.2.1 a) fun last hlast => hQ last ((hle.trans (C.grows hadds)).trans hlast)

theorem Honest.fulfilThen (h : Honest C Q past p) {duties : List (Duty S)}
    (hduties : ∀ d ∈ duties, C.Plain d.request) : Honest C Q past (fulfilThen p duties) := by
  induction duties with
  | nil => exact h
  | cons d rest ih =>
    have hrest := ih fun e he => hduties e (List.mem_cons_of_mem d he)
    have hfirst := hduties d List.mem_cons_self
    cases d <;> exact honest_plain hfirst fun now hle _ => hrest.later hle

/-- What takes the place of an interrupted activity has to be honest as well. -/
theorem Honest.guard {halt : Activity S α} (h : Honest C Q past p) (hhalt : Honest C Q past halt)
    (t : Token) : Honest C Q past (guard t halt p) := by
  induction p generalizing past with
  | done a => exact h
  | ask r ws duties next stop ihn ihs =>
    obtain ⟨hduties, ⟨choice, hnext⟩, hstop⟩ := h
    refine ⟨hduties, ⟨choice, fun now hle => ⟨(hnext now hle).1, fun a later hadds => ?_⟩⟩, fun s hs => ?_⟩
    · exact ihn a ((hnext now hle).2 a later hadds) (hhalt.later (hle.trans (C.grows hadds)))
    · dsimp only
      split
      · exact hhalt.fulfilThen hduties
      · exact ihs s _ (hstop s _) hhalt

theorem Honest.unlessCancelled {halt : Activity S α} (h : Honest C Q past p) (hhalt : Honest C Q past halt)
    {t : Token} (ht : C.Plain (.isCancelled t)) : Honest C Q past (unlessCancelled t halt p) := by
  refine honest_plain ht fun now hle (cancelled : Bool) => ?_
  cases cancelled with
  | true => exact hhalt.later hle
  | false => exact (h.later hle).guard (hhalt.later hle) t

end Honest

/-! ### Actions -/

section Action

variable {B : PageSide} {α β : Type} {C : Testimony B.signature} {past : C.Past}
  {Q : C.Past → Except Error β → Prop}

theorem honest_request {r : Request B.signature} {f : r.Answer → B.Action β}
    (choice : C.Choice) (hr : ∀ now ≥ past, C.Holds now r)
    (hf : ∀ now ≥ past, ∀ a later, C.Adds choice now r a later → Honest C Q later (f a).outcome) :
    Honest C Q past (Action.perform r >>= f).outcome := by
  rw [Action.perform, outcome_lift_bind]
  exact honest_perform choice hr hf

theorem honest_plainly {r : Request B.signature} {f : r.Answer → B.Action β} (hr : C.Plain r)
    (hf : ∀ now ≥ past, ∀ a, Honest C Q now (f a).outcome) :
    Honest C Q past (Action.perform r >>= f).outcome := by
  rw [Action.perform, outcome_lift_bind]
  exact honest_plain hr hf

/-- An action followed by another, which is skipped after a failure. -/
theorem Honest.andThen {R : C.Past → Except Error α → Prop} {a : B.Action α} {f : α → B.Action β}
    (ha : Honest C R past a.outcome)
    (hok : ∀ now ≥ past, ∀ v, R now (.ok v) → Honest C Q now (f v).outcome)
    (herror : ∀ now e, Q now (.error e)) : Honest C Q past (a >>= f).outcome := by
  rw [outcome_bind]
  refine honest_bind (ha.mono fun now hle r hr => ?_)
  cases r with
  | ok v => exact hok now hle v hr
  | error e => exact fun later _ => herror later e

/-- An action whose failure is looked at. -/
theorem Honest.attempt {R : C.Past → Except Error α → Prop} {a : B.Action α}
    {f : Except Error α → B.Action β} (ha : Honest C R past a.outcome)
    (hf : ∀ now ≥ past, ∀ r, R now r → Honest C Q now (f r).outcome) :
    Honest C Q past (a.attempt >>= f).outcome := by
  rw [outcome_attempt_bind]
  exact honest_bind (ha.mono hf)

theorem honest_ofExcept {r : Except Error β} (h : ∀ now ≥ past, Q now r) :
    Honest C Q past (Action.ofExcept r : B.Action β).outcome := by
  rw [outcome_ofExcept]
  exact h

end Action

/-! ### Runs -/

section Run

variable {S : Signature} {B : Backend S} {C : Testimony S} {α : Type}

/-- What happens in timelines is as it is told: the timeline shows what has happened, every true claim
is answered with something that adds to it, and the jobs that come of it are honest. -/
structure Bears (C : Testimony S) (Shows : C.Past → Timeline S B.World → Prop) : Prop where
  answers : ∀ {past tl} {r : Request S} {a : r.Answer} {after}, Shows past tl → C.Holds past r →
    Timeline.perform B tl r = some (a, after) → ∀ choice, ∃ now, C.Adds choice past r a now ∧ Shows now after
  jobs : ∀ {past tl} {r : Request S}, Shows past tl → C.Holds past r →
    ∀ job ∈ jobsOf B tl r, Honest C (fun _ _ => True) past (B.start job)
  others : ∀ {past} {tl after : Timeline S B.World}, Shows past tl → after.world = tl.world →
    after.inboxes = tl.inboxes → Shows past after

/-- The timeline shows what has happened, and the background is honest. -/
structure Borne (C : Testimony S) (Shows : C.Past → Timeline S B.World → Prop) (past : C.Past)
    (tl : Timeline S B.World) : Prop where
  shows : Shows past tl
  tasks : ∀ p ∈ tl.bag, Honest C (fun _ _ => True) past p

variable {Shows : C.Past → Timeline S B.World → Prop} {past : C.Past} {tl : Timeline S B.World}
  {Q : C.Past → α → Prop}

/-- Whoever is honest adds to what has happened, and remains so. -/
theorem Borne.advance (hbears : Bears C Shows) (h : Borne C Shows past tl) {p : Activity S α}
    (hp : Honest C Q past p) :
    ∃ now ≥ past, Borne C Shows now (advance B p tl).2 ∧ Honest C Q now (advance B p tl).1 := by
  induction p generalizing past tl with
  | done a => exact ⟨past, le_rfl, h, hp⟩
  | ask r ws duties next stop ihn ihs =>
    rcases hperform : Timeline.perform B tl r with _ | ⟨a, after⟩
    · simp only [Timeline.advance, hperform]
      exact ⟨past, le_rfl, h, hp⟩
    · simp only [Timeline.advance, hperform]
      obtain ⟨-, ⟨choice, hnext⟩, -⟩ := hp
      obtain ⟨hholds, hnext⟩ := hnext past le_rfl
      obtain ⟨mid, hadds, hshows⟩ := hbears.answers h.shows hholds hperform choice
      have hle := C.grows hadds
      have hborne : Borne C Shows mid after := by
        refine ⟨hshows, fun q hq => ?_⟩
        rw [Timeline.perform_bag hperform] at hq
        rcases Multiset.mem_add.mp hq with hq | hq
        · exact (h.tasks q hq).later hle
        · obtain ⟨job, hjob, rfl⟩ := List.mem_map.mp (Multiset.mem_coe.mp hq)
          exact (hbears.jobs h.shows hholds job hjob).later hle
      obtain ⟨now, hnow, hrest⟩ := ihn a hborne (hnext a mid hadds)
      exact ⟨now, hle.trans hnow, hrest⟩

theorem Borne.resume (hbears : Bears C Shows) (h : Borne C Shows past tl) {p : Activity S α}
    (hp : Honest C Q past p) :
    ∃ now ≥ past, Borne C Shows now (resume B p tl).2 ∧ Honest C Q now (resume B p tl).1 := by
  obtain ⟨q, hq, hresume⟩ := Timeline.resume_eq_advance (K := Honest C Q past) tl hp (by
    rintro r ws duties next stop rfl t ht
    exact hp.2.2 t ht)
  rw [hresume]
  exact h.advance hbears hq

theorem Borne.runTask (hbears : Bears C Shows) (h : Borne C Shows past tl) (id : Nat) :
    ∃ now ≥ past, Borne C Shows now (runTask B tl id) := by
  rcases hfind : tl.tasks.find? (·.id == id) with _ | task
  · rw [Timeline.runTask_of_find_none hfind]
    exact ⟨past, le_rfl, h⟩
  · have hbag := Timeline.cons_bag_le hfind
    have hbeside : Borne C Shows past { tl with tasks := tl.tasks.filter (·.id != id) } :=
      ⟨hbears.others h.shows rfl rfl,
        fun p hp => h.tasks p (Multiset.mem_of_le hbag (Multiset.mem_cons_of_mem hp))⟩
    obtain ⟨now, hnow, hborne, hleft⟩ := hbeside.resume hbears
      (h.tasks _ (Multiset.mem_of_le hbag (Multiset.mem_cons_self _ _)))
    have hrejoined := Timeline.runTask_rejoined hfind Prod.mk.eta.symm
    refine ⟨now, hnow, hbears.others hborne.shows hrejoined.world hrejoined.inboxes, fun p hp => ?_⟩
    rcases Multiset.mem_add.mp (Multiset.mem_of_le hrejoined.bag hp) with hp | hp
    · exact hborne.tasks p hp
    · rw [Multiset.mem_singleton.mp hp]
      exact hleft

/-- Foreground and background are honest. -/
structure Run.Borne (C : Testimony S) (Shows : C.Past → Timeline S B.World → Prop) (Q : C.Past → α → Prop)
    (past : C.Past) (run : Run S B.World α) : Prop where
  timeline : Activity.Borne C Shows past run.timeline
  main : Honest C Q past run.main

theorem Run.Borne.step (hbears : Bears C Shows) {run next : Run S B.World α}
    (h : run.Borne C Shows Q past) (hstep : run.step B = some next) :
    ∃ now ≥ past, next.Borne C Shows Q now := by
  have hidle : ∀ tl : Timeline S B.World, tl.world = run.timeline.world →
      tl.inboxes = run.timeline.inboxes → tl.tasks = run.timeline.tasks → Activity.Borne C Shows past tl :=
    fun _ hworld hinboxes htasks => ⟨hbears.others h.timeline.shows hworld hinboxes, fun p hp =>
      h.timeline.tasks p (by simpa only [Timeline.bag, htasks] using hp)⟩
  unfold Run.step at hstep
  split at hstep
  · rename_i id rest hready
    obtain rfl := Option.some.inj hstep
    obtain ⟨now, hnow, hborne⟩ :=
      (hidle { run.timeline with ready := rest } rfl rfl rfl).runTask hbears id
    exact ⟨now, hnow, hborne, h.main.later hnow⟩
  · split at hstep
    · cases hstep
    · split at hstep
      · obtain rfl := Option.some.inj hstep
        obtain ⟨now, hnow, hborne, hmain⟩ := h.timeline.resume hbears h.main
        exact ⟨now, hnow, hborne, hmain⟩
      · split at hstep
        · cases hstep
        · split at hstep
          · obtain rfl := Option.some.inj hstep
            exact ⟨past, le_rfl, hidle _ rfl rfl rfl, h.main⟩
          · cases hstep

theorem Run.Borne.finish (hbears : Bears C Shows) (turns : Nat) {run : Run S B.World α}
    (h : run.Borne C Shows Q past) : ∃ now ≥ past, (run.finish B turns).Borne C Shows Q now := by
  induction turns generalizing past run with
  | zero => exact ⟨past, le_rfl, h⟩
  | succ turns ih =>
    rcases hstep : run.step B with _ | next
    · rw [Run.finish_of_step_none hstep]
      exact ⟨past, le_rfl, h⟩
    · rw [Run.finish_of_step hstep]
      obtain ⟨mid, hmid, hnext⟩ := h.step hbears hstep
      obtain ⟨now, hnow, hlast⟩ := ih hnext
      exact ⟨now, hmid.trans hnow, hlast⟩

/-- An honest activity is started. -/
theorem Borne.start (hbears : Bears C Shows) (h : Borne C Shows past tl) {p : Activity S α}
    (hp : Honest C Q past p) (limit : Option Nat) :
    ∃ now ≥ past, (Run.start B p tl limit).Borne C Shows Q now := by
  obtain ⟨now, hnow, hborne, hmain⟩ := h.advance hbears hp
  exact ⟨now, hnow, hborne, hmain⟩

/-- An honest activity that ends does so as it should. -/
theorem Borne.ends (hbears : Bears C Shows) (h : Borne C Shows past tl) {p : Activity S α}
    (hp : Honest C Q past p) {limit : Option Nat} {turns : Nat} {a : α} {last : Timeline S B.World}
    (hend : (Run.start B p tl limit).finish B turns = ⟨.done a, last, limit⟩) :
    ∃ now ≥ past, Borne C Shows now last ∧ Q now a := by
  obtain ⟨mid, hmid, hstart⟩ := h.start hbears hp limit
  obtain ⟨now, hnow, hlast⟩ := hstart.finish hbears turns
  rw [hend] at hlast
  exact ⟨now, hmid.trans hnow, hlast.timeline, hlast.main now le_rfl⟩

end Run

end Wayfind.Activity
