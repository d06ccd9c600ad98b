/-
Reasoning about activities that run beside each other.

Whoever runs holds a share of what there is: handles, tokens, messages still to come.  A
`Discipline` says which shares fit together in a timeline.  While an activity runs,
nobody else does, so nothing has to fit before the next request that waits; there the
activity puts its share down, and takes it up again in whatever timeline it finds later.

`Runs` is the weakest precondition that follows from this.  It is read off an activity
request by request, and `advance_runs` and `resume_runs` say that it means what it says.
-/
import Mathlib.Data.List.Forall2
import Mathlib.Algebra.Order.Group.Multiset
import Wayfind.Proofs.Activity.Timeline

namespace Wayfind.Activity

open Timeline (advance resume canResume jobsOf watched Later Grown Orderly)

variable {S : Signature} {B : Backend S} {α β : Type}

/-- Where an activity runs. -/
inductive Role where
  | foreground
  | background

/-- What the running activities hold, and how it fits together. -/
structure Discipline (B : Backend S) where
  Share : Type
  /-- The timeline is as the shares of everybody in it say. -/
  Holds : Timeline S B.World → Multiset Share → Prop
  /-- A share with which an activity may be suspended. -/
  Parked : Role → Share → Request S → List Token → List (Duty S) → Prop
  /-- A share with which a job may start. -/
  Starts : S.Job → Share → Prop
  /-- The shares do not depend on who is queued. -/
  ignores : ∀ {tl after : Timeline S B.World} {shares : Multiset Share},
    after.world = tl.world → after.clock = tl.clock → after.tokens = tl.tokens →
      after.inboxes = tl.inboxes → Holds tl shares → Holds after shares

/-- A condition on how an activity ends: its result, the shares of the others, the timeline. -/
abbrev Discipline.Post (D : Discipline B) (α : Type) : Type :=
  α → Multiset D.Share → Timeline S B.World → Prop

/-- The activity, run among others with such shares, keeps the discipline and ends as it should. -/
def Runs (D : Discipline B) (role : Role) (Q : D.Post α) :
    Activity S α → Multiset D.Share → Timeline S B.World → Prop
  | .done a, others, tl => Q a others tl
  | .ask r watched duties next stop, others, tl =>
    match Timeline.perform B tl r with
    | some (a, after) =>
      ∃ new : List D.Share, List.Forall₂ D.Starts (jobsOf B tl r) new ∧
        Runs D role Q (next a) ((new : Multiset D.Share) + others) after
    | none =>
      ∃ share, D.Parked role share r watched duties ∧
        (∀ t ∈ watched, t < tl.tokens.count ∧ tl.isCancelled t = false) ∧
        D.Holds tl (share ::ₘ others) ∧
        ∀ after others', Later tl after → D.Holds after (share ::ₘ others') →
          (∀ t h, after.isCancelled t = true → Runs D role Q (stop t h) others' after) ∧
          ((∀ t ∈ watched, after.isCancelled t = false) →
            ∀ a later, Timeline.perform B after r = some (a, later) →
              ∃ new : List D.Share, List.Forall₂ D.Starts (jobsOf B after r) new ∧
                Runs D role Q (next a) ((new : Multiset D.Share) + others') later)

variable {D : Discipline B} {role : Role} {Q : D.Post α} {others : Multiset D.Share} {tl : Timeline S B.World}

/-! ### Rules -/

theorem runs_done {a : α} : Runs D role Q (.done a) others tl ↔ Q a others tl := Iff.rfl

theorem runs_bind {Q : D.Post β} {p : Activity S α} {f : α → Activity S β} :
    Runs D role Q (bind p f) others tl ↔
      Runs D role (fun a others tl => Runs D role Q (f a) others tl) p others tl := by
  induction p generalizing others tl with
  | done a => exact Iff.rfl
  | ask r watched duties next stop ihn ihs => simp only [bind, Runs, ihn, ihs]

theorem Runs.mono {Q' : D.Post α} {p : Activity S α} (h : Runs D role Q p others tl)
    (hQ : ∀ a others tl, Q a others tl → Q' a others tl) : Runs D role Q' p others tl := by
  induction p generalizing others tl with
  | done a => exact hQ a others tl h
  | ask r watched duties next stop ihn ihs =>
    unfold Runs at h ⊢
    split
    · rename_i a after hp
      rw [hp] at h
      obtain ⟨new, hnew, hrest⟩ := h
      exact ⟨new, hnew, ihn a hrest⟩
    · rename_i hp
      rw [hp] at h
      obtain ⟨share, hparked, hwatch, hholds, hlater⟩ := h
      refine ⟨share, hparked, hwatch, hholds, ?_⟩
      intro after others' hafter hheld
      obtain ⟨hstop, hnext⟩ := hlater after others' hafter hheld
      refine ⟨fun t ht hc => ihs t ht (hstop t ht hc), ?_⟩
      intro hquiet a later hp'
      obtain ⟨new, hnew, hrest⟩ := hnext hquiet a later hp'
      exact ⟨new, hnew, ihn a hrest⟩

/-- Meanwhile the clock does not go back. -/
theorem Runs.clock {p : Activity S α} (h : Runs D role Q p others tl) {time : Nat}
    (htime : time ≤ tl.clock) :
    Runs D role (fun a others after => Q a others after ∧ time ≤ after.clock) p others tl := by
  induction p generalizing others tl with
  | done a => exact ⟨h, htime⟩
  | ask r watched duties next stop ihn ihs =>
    unfold Runs at h ⊢
    split
    · rename_i a after hp
      rw [hp] at h
      obtain ⟨new, hnew, hrest⟩ := h
      exact ⟨new, hnew, ihn a hrest (Timeline.perform_clock hp ▸ htime)⟩
    · rename_i hp
      rw [hp] at h
      obtain ⟨share, hparked, hwatch, hholds, hlater⟩ := h
      refine ⟨share, hparked, hwatch, hholds, ?_⟩
      intro after others' hafter hheld
      have hclock : time ≤ after.clock := Nat.le_trans htime hafter.clock
      obtain ⟨hstop, hnext⟩ := hlater after others' hafter hheld
      refine ⟨fun t ht hc => ihs t ht (hstop t ht hc) hclock, ?_⟩
      intro hquiet a later hp'
      obtain ⟨new, hnew, hrest⟩ := hnext hquiet a later hp'
      exact ⟨new, hnew, ihn a hrest (Timeline.perform_clock hp' ▸ hclock)⟩

/-- The discipline, for an activity that is part of another one which has such duties all the time. -/
abbrev Discipline.within (D : Discipline B) (around : List (Duty S)) : Discipline B where
  Share := D.Share
  Holds := D.Holds
  Parked role share r watched duties := D.Parked role share r watched (duties ++ around)
  Starts := D.Starts
  ignores := D.ignores

theorem Runs.protect {p : Activity S α} {ds around : List (Duty S)}
    (h : Runs (D.within (ds ++ around)) role Q p others tl) :
    Runs (D.within around) role Q (protect ds p) others tl := by
  induction p generalizing others tl with
  | done a => exact h
  | ask r watched duties next stop ihn ihs =>
    unfold Activity.protect
    unfold Runs at h ⊢
    split
    · rename_i a after hp
      rw [hp] at h
      obtain ⟨new, hnew, hrest⟩ := h
      exact ⟨new, hnew, ihn a hrest⟩
    · rename_i hp
      rw [hp] at h
      obtain ⟨share, hparked, hwatch, hholds, hlater⟩ := h
      refine ⟨share, ?_, hwatch, hholds, ?_⟩
      · show D.Parked role share r watched (duties ++ ds ++ around)
        rw [List.append_assoc]
        exact hparked
      intro after others' hafter hheld
      obtain ⟨hstop, hnext⟩ := hlater after others' hafter hheld
      refine ⟨fun t ht hc => ihs t ht (hstop t ht hc), ?_⟩
      intro hquiet a later hp'
      obtain ⟨new, hnew, hrest⟩ := hnext hquiet a later hp'
      exact ⟨new, hnew, ihn a hrest⟩

/-- Who has no duties around it is the whole activity. -/
theorem runs_within_nil {p : Activity S α} :
    Runs (D.within []) role Q p others tl ↔ Runs D role Q p others tl := by
  induction p generalizing others tl with
  | done a => exact Iff.rfl
  | ask r watched duties next stop ihn ihs => simp only [Runs, List.append_nil, ihn, ihs]

/-- A request that is answered at once and sets nothing off. -/
theorem runs_ask {r : Request S} {watched : List Token} {duties : List (Duty S)}
    {next : r.Answer → Activity S α} {stop : (t : Token) → t ∈ watched → Activity S α} {a : r.Answer}
    {after : Timeline S B.World} (hp : Timeline.perform B tl r = some (a, after))
    (hjobs : jobsOf B tl r = []) :
    Runs D role Q (.ask r watched duties next stop) others tl ↔ Runs D role Q (next a) others after := by
  simp only [Runs, hp, hjobs, List.forall₂_nil_left_iff]
  constructor
  · rintro ⟨new, rfl, h⟩
    simpa using h
  · intro h
    exact ⟨[], rfl, by simpa using h⟩

/-- A request that may have to wait: the share is put down, and taken up again when the request is
answered or a token interrupts it. -/
theorem runs_wait {r : Request S} {watched : List Token} {duties : List (Duty S)}
    {next : r.Answer → Activity S α} {stop : (t : Token) → t ∈ watched → Activity S α}
    {share : D.Share} (hparked : D.Parked role share r watched duties)
    (hwatch : ∀ t ∈ watched, t < tl.tokens.count ∧ tl.isCancelled t = false)
    (hholds : D.Holds tl (share ::ₘ others)) (hjobs : ∀ tl, jobsOf B tl r = [])
    (hstop : ∀ after others' t h, Later tl after → D.Holds after (share ::ₘ others') →
      after.isCancelled t = true → Runs D role Q (stop t h) others' after)
    (hnext : ∀ after others' a later, Later tl after → D.Holds after (share ::ₘ others') →
      (∀ t ∈ watched, after.isCancelled t = false) →
      Timeline.perform B after r = some (a, later) → Runs D role Q (next a) others' later) :
    Runs D role Q (.ask r watched duties next stop) others tl := by
  rcases hp : Timeline.perform B tl r with _ | ⟨a, after⟩
  · simp only [Runs, hp]
    refine ⟨share, hparked, hwatch, hholds, ?_⟩
    intro after others' hlater hheld
    refine ⟨fun t h hc => hstop after others' t h hlater hheld hc, ?_⟩
    intro hquiet a later hp'
    refine ⟨[], ?_, ?_⟩
    · rw [hjobs]
      exact .nil
    · simpa using hnext after others' a later hlater hheld hquiet hp'
  · refine (runs_ask hp (hjobs tl)).mpr ?_
    exact hnext tl others a after (Later.refl tl) hholds (fun t ht => (hwatch t ht).2) hp

theorem bind_perform {r : Request S} (f : r.Answer → Activity S β) :
    bind (Activity.perform r) f = .ask r [] [] f fun _ h => nomatch h := by
  simp only [Activity.perform, bind]
  congr 1
  funext t h
  cases h

theorem runs_perform {Q : D.Post β} {r : Request S} {f : r.Answer → Activity S β}
    {a : r.Answer} {after : Timeline S B.World} (hp : Timeline.perform B tl r = some (a, after))
    (hjobs : jobsOf B tl r = []) :
    Runs D role Q (bind (Activity.perform r) f) others tl ↔ Runs D role Q (f a) others after := by
  rw [bind_perform]
  exact runs_ask hp hjobs

/-- A request that is answered at once; the jobs it sets off have their shares. -/
theorem runs_jobs {Q : D.Post β} {r : Request S} {f : r.Answer → Activity S β} {a : r.Answer}
    {after : Timeline S B.World} {new : List D.Share}
    (hp : Timeline.perform B tl r = some (a, after)) (hnew : List.Forall₂ D.Starts (jobsOf B tl r) new)
    (h : Runs D role Q (f a) ((new : Multiset D.Share) + others) after) :
    Runs D role Q (bind (Activity.perform r) f) others tl := by
  rw [bind_perform]
  simp only [Runs, hp]
  exact ⟨new, hnew, h⟩

/-- Forking a job gives a share away. -/
theorem runs_fork {Q : D.Post β} {job : S.Job} {f : Unit → Activity S β} {share : D.Share}
    (hstart : D.Starts job share) (h : Runs D role Q (f ()) (share ::ₘ others) (tl.fork B job)) :
    Runs D role Q (bind (Activity.perform (.fork job)) f) others tl :=
  runs_jobs (r := .fork job) rfl (.cons hstart .nil) h

/-! ### What it means -/

/-- The activity waits with such a share, and goes on as it should once it can. -/
def Suspended (D : Discipline B) (role : Role) (Q : D.Post α) (share : D.Share) (tl : Timeline S B.World) :
    Activity S α → Prop
  | .done _ => False
  | .ask r watched duties next stop =>
    D.Parked role share r watched duties ∧ (∀ t ∈ watched, t < tl.tokens.count) ∧
      ∀ after others, Later tl after → D.Holds after (share ::ₘ others) →
        (∀ t h, after.isCancelled t = true → Runs D role Q (stop t h) others after) ∧
        ((∀ t ∈ watched, after.isCancelled t = false) →
          ∀ a later, Timeline.perform B after r = some (a, later) →
            ∃ new : List D.Share, List.Forall₂ D.Starts (jobsOf B after r) new ∧
              Runs D role Q (next a) ((new : Multiset D.Share) + others) later)

theorem Suspended.later {share : D.Share} {after : Timeline S B.World} {p : Activity S α}
    (h : Suspended D role Q share tl p) (hl : Later tl after) : Suspended D role Q share after p := by
  cases p with
  | done a => exact h
  | ask r watched duties next stop =>
    exact ⟨h.1, fun t ht => Nat.lt_of_lt_of_le (h.2.1 t ht) hl.tokens,
      fun later others hl' hheld => h.2.2 later others (hl.trans hl') hheld⟩

theorem Suspended.watched_lt {share : D.Share} {p : Activity S α} (h : Suspended D role Q share tl p) :
    ∀ t ∈ watched p, t < tl.tokens.count := by
  cases p with
  | done a => exact absurd h id
  | ask r watched duties next stop => exact h.2.1

/-- The activity has got to a place where it keeps the discipline: it ended as it should, or it
waits with a share of its own for something that has not happened. -/
structure Reaches (D : Discipline B) (role : Role) (Q : D.Post α) (others : Multiset D.Share)
    (before : Timeline S B.World) (p : Activity S α) (tl : Timeline S B.World) : Prop where
  orderly : Orderly tl
  grown : Grown before tl
  /-- The jobs started on the way have their shares. -/
  settled : ∃ (jobs : List S.Job) (new : List D.Share), List.Forall₂ D.Starts jobs new ∧
    tl.tasks.map (·.activity) = before.tasks.map (·.activity) ++ jobs.map B.start ∧
    ((∃ a, p = .done a ∧ Q a ((new : Multiset D.Share) + others) tl) ∨
      ∃ share, Suspended D role Q share tl p ∧
        D.Holds tl (share ::ₘ ((new : Multiset D.Share) + others)) ∧ canResume tl p = false)

/-- A request that cannot be answered does not let an activity go on. -/
theorem canResume_eq_false {r : Request S} {ws : List Token} {duties : List (Duty S)}
    {next : r.Answer → Activity S α} {stop : (t : Token) → t ∈ ws → Activity S α}
    (hp : Timeline.perform B tl r = none) (hw : ∀ t ∈ ws, tl.isCancelled t = false) :
    canResume tl (.ask r ws duties next stop) = false := by
  have hany : ws.any tl.isCancelled = false := by
    rw [List.any_eq_false]
    intro t ht
    rw [hw t ht]
    exact Bool.false_ne_true
  simp only [canResume, hany, Bool.false_or]
  cases r with
  | sleepUntil time =>
    simp only [Timeline.perform] at hp
    split at hp
    · exact absurd hp (by simp)
    · rename_i htime
      simpa using htime
  | take inbox =>
    simp only [Timeline.perform] at hp
    split at hp
    · exact absurd hp (by simp)
    · rename_i hm
      simp [hm]
  | forever => rfl
  | _ => exact absurd hp (by simp [Timeline.perform])

theorem advance_runs {p : Activity S α} (ho : Orderly tl) (h : Runs D role Q p others tl) :
    Reaches D role Q others tl (advance B p tl).1 (advance B p tl).2 := by
  induction p generalizing others tl with
  | done a =>
    refine ⟨ho, Grown.refl tl, [], [], .nil, by simp [advance], Or.inl ⟨a, rfl, ?_⟩⟩
    rw [runs_done] at h
    simpa [advance] using h
  | ask r ws duties next stop ihn ihs =>
    rcases hp : Timeline.perform B tl r with _ | ⟨a, after⟩
    · simp only [Runs, hp] at h
      obtain ⟨share, hparked, hwatch, hholds, hlater⟩ := h
      have hadvance : advance B (.ask r ws duties next stop) tl = (.ask r ws duties next stop, tl) := by
        simp only [advance, hp]
      rw [hadvance]
      refine ⟨ho, Grown.refl tl, [], [], .nil, by simp, Or.inr ⟨share, ?_, ?_, ?_⟩⟩
      · exact ⟨hparked, fun t ht => (hwatch t ht).1, hlater⟩
      · simpa using hholds
      · exact canResume_eq_false hp fun t ht => (hwatch t ht).2
    · simp only [Runs, hp] at h
      obtain ⟨new, hnew, hrest⟩ := h
      obtain ⟨horder, hgrown⟩ := Timeline.perform_orderly_grown ho hp
      obtain ⟨ho', hg', jobs, more, hmore, htasks, hend⟩ := ihn a horder hrest
      have hadvance : advance B (.ask r ws duties next stop) tl = advance B (next a) after := by
        simp only [advance, hp]
      rw [hadvance]
      refine ⟨ho', hgrown.trans hg', jobsOf B tl r ++ jobs, new ++ more,
        List.rel_append hnew hmore, ?_, ?_⟩
      · rw [htasks, Timeline.perform_activities hp, List.map_append, List.append_assoc]
      · have hall : (↑(new ++ more) : Multiset D.Share) + others =
            (more : Multiset D.Share) + ((new : Multiset D.Share) + others) := by
          rw [← Multiset.coe_add, add_comm (new : Multiset D.Share), add_assoc]
        rwa [hall]

/-- What nobody can interrupt goes on as if it ran for the first time. -/
theorem resume_of_watched_nil {p : Activity S α} (hw : watched p = []) :
    resume B p tl = advance B p tl := by
  cases p with
  | done a => rfl
  | ask r ws duties next stop =>
    have hws : ws = [] := hw
    subst hws
    simp [resume]

/-- A suspended activity goes on, or stays where it is. -/
theorem resume_runs {p : Activity S α} {share : D.Share} (ho : Orderly tl)
    (h : Suspended D role Q share tl p) (hh : D.Holds tl (share ::ₘ others)) :
    Reaches D role Q others tl (resume B p tl).1 (resume B p tl).2 := by
  cases p with
  | done a => exact absurd h id
  | ask r ws duties next stop =>
    obtain ⟨hstop, hnext⟩ := h.2.2 tl others (Later.refl tl) hh
    simp only [resume]
    split
    · rename_i t ht
      exact advance_runs ho (hstop t _ (List.find?_some ht))
    · rename_i hfind
      have hquiet : ∀ t ∈ ws, tl.isCancelled t = false := fun t ht =>
        Bool.eq_false_iff.mpr (List.find?_eq_none.mp hfind t ht)
      rcases hp : Timeline.perform B tl r with _ | ⟨a, after⟩
      · simp only [advance, hp]
        refine ⟨ho, Grown.refl tl, [], [], .nil, by simp, Or.inr ⟨share, h, by simpa using hh, ?_⟩⟩
        exact canResume_eq_false hp hquiet
      · obtain ⟨new, hnew, hrest⟩ := hnext hquiet a after hp
        obtain ⟨horder, hgrown⟩ := Timeline.perform_orderly_grown ho hp
        obtain ⟨ho', hg', jobs, more, hmore, htasks, hend⟩ := advance_runs horder hrest
        simp only [advance, hp]
        refine ⟨ho', hgrown.trans hg', jobsOf B tl r ++ jobs, new ++ more,
          List.rel_append hnew hmore, ?_, ?_⟩
        · rw [htasks, Timeline.perform_activities hp, List.map_append, List.append_assoc]
        · have hall : (↑(new ++ more) : Multiset D.Share) + others = (more : Multiset D.Share) + ((new : Multiset D.Share) + others) := by
            rw [← Multiset.coe_add, add_comm (new : Multiset D.Share), add_assoc]
          rwa [hall]

end Wayfind.Activity
