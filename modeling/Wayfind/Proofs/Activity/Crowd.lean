/-
Many activities in the foreground of one timeline.

A `Run` has one foreground activity and goes through the queue in order.  A `Crowd` has
any number of them, each started at a time of its own, and goes on with whoever can, in
any order; time passes only when nobody can.  Whatever holds of every crowd therefore
holds of every run (`run_steps`), however the queue is served.

`Kept` is the invariant: everybody in the crowd has a share, the shares fit together, and
whoever is suspended keeps the discipline when resumed.  Every step keeps it
(`Kept.step`), provided the jobs and the programs are sound.
-/
import Mathlib.Tactic.Abel
import Wayfind.Activity.Session
import Wayfind.Proofs.Activity.Logic

namespace Wayfind.Activity

open Timeline (advance resume canResume runTask moveClock watched wakeTime Later Grown Orderly)
open Relation (ReflTransGen)

variable {S : Signature} {B : Backend S} {ι α β : Type}

/-- A foreground activity that has not ended. -/
structure Member (ι : Type) (S : Signature) (α : Type) where
  who : ι
  /-- When it was started. -/
  began : Nat
  activity : Activity S α

/-- A foreground activity that has ended. -/
structure Ending (ι : Type) (S : Signature) (World α : Type) where
  who : ι
  began : Nat
  outcome : α
  /-- The timeline at that instant. -/
  timeline : Timeline S World

/-- Foreground activities in their timeline. -/
structure Crowd (B : Backend S) (ι α : Type) where
  timeline : Timeline S B.World
  running : List (Member ι S α)
  ended : List (Ending ι S B.World α)

namespace Crowd

/-- Nothing was started yet. -/
def init (tl : Timeline S B.World) : Crowd B ι α := ⟨tl, [], []⟩

/-- The crowd after somebody in it ran. -/
def place (c : Crowd B ι α) (who : ι) (began : Nat) :
    Activity S α × Timeline S B.World → Crowd B ι α
  | (.done a, tl) => ⟨tl, c.running, c.ended ++ [⟨who, began, a, tl⟩]⟩
  | (p, tl) => ⟨tl, c.running ++ [⟨who, began, p⟩], c.ended⟩

/-- One turn of somebody, or a wait. -/
inductive Step (B : Backend S) (program : ι → Activity S α) : Crowd B ι α → Crowd B ι α → Prop
  /-- A queued background activity goes on. -/
  | task {c : Crowd B ι α} (id : Nat) (hready : id ∈ c.timeline.ready) :
      Step B program c { c with
        timeline := runTask B { c.timeline with ready := c.timeline.ready.erase id } id }
  /-- Somebody starts. -/
  | enter {c : Crowd B ι α} (who : ι) :
      Step B program c (c.place who c.timeline.clock (advance B (program who) c.timeline))
  /-- A foreground activity goes on. -/
  | go {c : Crowd B ι α} (before after : List (Member ι S α)) (m : Member ι S α)
      (hmem : c.running = before ++ m :: after)
      (hresume : canResume c.timeline m.activity = true) :
      Step B program c (({ c with running := before ++ after } : Crowd B ι α).place m.who m.began
        (resume B m.activity c.timeline))
  /-- Nobody can go on, and time passes, up to the next time that somebody waits for. -/
  | wait {c : Crowd B ι α} (time : Nat) (hready : c.timeline.ready = [])
      (hstuck : ∀ m ∈ c.running, canResume c.timeline m.activity = false)
      (hle : c.timeline.clock ≤ time)
      (htasks : ∀ task ∈ c.timeline.tasks, ∀ wake ∈ wakeTime task.activity, time ≤ wake)
      (hrunning : ∀ m ∈ c.running, ∀ wake ∈ wakeTime m.activity, time ≤ wake) :
      Step B program c { c with timeline := c.timeline.moveClock time }

/-- Nobody can go on at this instant. -/
structure Resting (c : Crowd B ι α) : Prop where
  background : c.timeline.ready = []
  foreground : ∀ m ∈ c.running, canResume c.timeline m.activity = false

end Crowd

/-! ### The bookkeeping of background activities -/

theorem Timeline.Orderly.erase {tl : Timeline S B.World} (h : Orderly tl) (id : Nat) :
    Orderly { tl with
      ready := tl.ready.erase id, tasks := tl.tasks.filter fun task => task.id != id } := by
  have hmem : ∀ {task}, task ∈ tl.tasks.filter (fun task => task.id != id) →
      task ∈ tl.tasks ∧ task.id ≠ id := by
    intro task ht
    simpa using List.mem_filter.mp ht
  refine ⟨?_, ?_, ?_, ?_⟩
  · exact h.distinct.sublist (List.filter_sublist.map _)
  · exact fun task ht => h.numbered task (hmem ht).1
  · intro task ht hresume
    have hcan : canResume tl task.activity = true := by
      cases hp : task.activity with
      | done a => rw [hp] at hresume; exact hresume
      | ask r ws duties next stop => rw [hp] at hresume; exact hresume
    exact (List.mem_erase_of_ne (hmem ht).2).mpr (h.queued task (hmem ht).1 hcan)
  · intro task ht
    exact (h.watching task (hmem ht).1).imp_left (List.mem_erase_of_ne (hmem ht).2).mpr

theorem Timeline.Orderly.suspend {tl : Timeline S B.World} (h : Orderly tl) {id : Nat}
    {p : Activity S Unit} (hnew : ∀ task ∈ tl.tasks, task.id ≠ id) (hid : id < tl.nextTask)
    (hstuck : canResume tl p = false) (hw : ∀ t ∈ watched p, t < tl.tokens.count) :
    Orderly { tl with tasks := tl.tasks ++ [⟨id, p⟩] } := by
  have hmem : ∀ {task}, task ∈ tl.tasks ++ [(⟨id, p⟩ : Task S)] →
      task ∈ tl.tasks ∨ task = ⟨id, p⟩ := by
    intro task ht
    simpa using ht
  have hcan : ∀ q : Activity S Unit,
      canResume { tl with tasks := tl.tasks ++ [⟨id, p⟩] } q = canResume tl q := by
    intro q
    cases q <;> rfl
  refine ⟨?_, ?_, ?_, ?_⟩
  · simp only [List.map_append, List.map_cons, List.map_nil]
    refine List.nodup_append.mpr ⟨h.distinct, List.nodup_singleton _, ?_⟩
    intro a ha b hb hab
    obtain ⟨task, ht, rfl⟩ := List.mem_map.mp ha
    exact hnew task ht (hab.trans (List.mem_singleton.mp hb))
  · intro task ht
    rcases hmem ht with ht | rfl
    · exact h.numbered task ht
    · exact hid
  · intro task ht hresume
    rw [hcan] at hresume
    rcases hmem ht with ht | rfl
    · exact h.queued task ht hresume
    · rw [hstuck] at hresume
      exact absurd hresume Bool.false_ne_true
  · intro task ht
    rcases hmem ht with ht | rfl
    · exact h.watching task ht
    · exact Or.inr hw

theorem moveClock_stirred (tl : Timeline S B.World) (time : Nat) :
    Timeline.Stirred tl (tl.moveClock time) := by
  refine ⟨rfl, rfl, fun i hi => (Timeline.mem_ready_wake _ _ i).mpr (Or.inl hi), Nat.le_refl _, ?_⟩
  intro task ht hresume _
  cases hp : task.activity with
  | done a =>
    rw [hp] at hresume
    simp [canResume] at hresume
  | ask r ws duties next stop =>
    rw [hp] at hresume
    simp only [canResume, Bool.or_eq_true] at hresume ⊢
    rcases hresume with hw | hr
    · exact Or.inl (Or.inl hw)
    · cases r with
      | sleepUntil wake =>
        refine Or.inr ((Timeline.mem_ready_wake _ _ _).mpr (Or.inr ?_))
        have hin : task ∈ ({ tl with clock := time } : Timeline S B.World).tasks := ht
        refine Timeline.mem_tasksWhere hin ?_
        have hwake : wake ≤ time := of_decide_eq_true hr
        simpa [hp, wakeTime] using hwake
      | _ => exact Or.inl (Or.inr hr)

/-! ### The invariant -/

/-- The activity can do nothing at such a request. -/
def Stuck (B : Backend S) (tl : Timeline S B.World) (r : Request S) (ws : List Token) : Prop :=
  (∀ t ∈ ws, tl.isCancelled t = false) ∧ Timeline.perform B tl r = none

theorem stuck_of_canResume {tl : Timeline S B.World} {r : Request S} {ws : List Token}
    {duties : List (Duty S)} {next : r.Answer → Activity S α}
    {stop : (t : Token) → t ∈ ws → Activity S α}
    (h : canResume tl (.ask r ws duties next stop) = false) : Stuck B tl r ws := by
  simp only [canResume, Bool.or_eq_false_iff, List.any_eq_false] at h
  refine ⟨fun t ht => Bool.eq_false_iff.mpr (h.1 t ht), ?_⟩
  cases r with
  | sleepUntil time => simpa [Timeline.perform] using h.2
  | take inbox =>
    have hempty : tl.messages inbox = [] := by simpa using h.2
    simp [Timeline.perform, hempty]
  | forever => rfl
  | _ => exact absurd h.2 (by simp)

/-- The activity waits with such a share for something that has not happened. -/
def Halted (D : Discipline B) (role : Role) (tl : Timeline S B.World) (share : D.Share) : Activity S β → Prop
  | .done _ => False
  | .ask r ws duties _ _ => D.Parked role share r ws duties ∧ Stuck B tl r ws

theorem Suspended.halted {D : Discipline B} {role : Role} {Q : D.Post β} {share : D.Share}
    {tl : Timeline S B.World} {p : Activity S β} (h : Suspended D role Q share tl p)
    (hcan : canResume tl p = false) : Halted D role tl share p := by
  cases p with
  | done a => exact absurd h id
  | ask r ws duties next stop => exact ⟨h.1, stuck_of_canResume hcan⟩

/-- What is expected of a background activity: it leaves nothing behind. -/
def Discipline.leaves (D : Discipline B) : D.Post Unit := fun _ others tl => D.Holds tl others

/-- What is expected of a foreground activity: what it keeps is as its result says. -/
def Discipline.endsWell (D : Discipline B) (Keeps : α → D.Share → Prop)
    (Ends : ι → Nat → α → Timeline S B.World → Prop) (who : ι) (began : Nat) : D.Post α :=
  fun a others tl => ∃ share, Keeps a share ∧ D.Holds tl (share ::ₘ others) ∧ Ends who began a tl

/-- The jobs and programs keep the discipline, and so does a wait. -/
structure Sound (D : Discipline B) (program : ι → Activity S α) (Keeps : α → D.Share → Prop)
    (Ends : ι → Nat → α → Timeline S B.World → Prop) : Prop where
  fresh : ∀ {job share}, D.Starts job share → watched (B.start job) = []
  jobs : ∀ {job share}, D.Starts job share → ∀ {tl others}, D.Holds tl (share ::ₘ others) →
    Runs D .background D.leaves (B.start job) others tl
  programs : ∀ who {tl others}, D.Holds tl others →
    Runs D .foreground (D.endsWell Keeps Ends who tl.clock) (program who) others tl
  waits : ∀ {tl : Timeline S B.World} {time shares}, D.Holds tl shares → tl.clock ≤ time →
    (∀ share ∈ shares, (∃ a, Keeps a share) ∨ ∃ role r ws duties, D.Parked role share r ws duties ∧
      Stuck B tl r ws ∧ ∀ wake, r = .sleepUntil wake → time ≤ wake) →
    D.Holds { tl with clock := time } shares

/-- A background activity with its share: it is queued and has not run yet, or it is suspended. -/
def Background (D : Discipline B) (tl : Timeline S B.World) (x : Task S × D.Share) : Prop :=
  (x.1.id ∈ tl.ready ∧ watched x.1.activity = [] ∧ ∀ after others, D.Holds after (x.2 ::ₘ others) →
    Runs D .background D.leaves x.1.activity others after) ∨ Suspended D .background D.leaves x.2 tl x.1.activity

theorem Background.mono {D : Discipline B} {tl after : Timeline S B.World} {x : Task S × D.Share}
    (h : Background D tl x) (hready : x.1.id ∈ tl.ready → x.1.id ∈ after.ready)
    (hl : Later tl after) : Background D after x :=
  h.imp (And.imp_left hready) fun h => h.later hl

variable {D : Discipline B} {program : ι → Activity S α} {Keeps : α → D.Share → Prop}
  {Ends : ι → Nat → α → Timeline S B.World → Prop}

/-- Everybody in the crowd has a share, and the shares fit together. -/
structure Kept (D : Discipline B) (Keeps : α → D.Share → Prop)
    (Ends : ι → Nat → α → Timeline S B.World → Prop) (c : Crowd B ι α) : Prop where
  orderly : Orderly c.timeline
  shares : ∃ (tasks : List (Task S × D.Share)) (running : List (Member ι S α × D.Share))
      (ended : List (Ending ι S B.World α × D.Share)),
    tasks.map Prod.fst = c.timeline.tasks ∧ running.map Prod.fst = c.running ∧
    ended.map Prod.fst = c.ended ∧
    D.Holds c.timeline (↑(tasks.map Prod.snd) + (↑(running.map Prod.snd) + ↑(ended.map Prod.snd))) ∧
    (∀ x ∈ tasks, Background D c.timeline x) ∧
    (∀ x ∈ running, Suspended D .foreground (D.endsWell Keeps Ends x.1.who x.1.began) x.2 c.timeline
      x.1.activity) ∧
    ∀ x ∈ ended, Keeps x.1.outcome x.2 ∧ Ends x.1.who x.1.began x.1.outcome x.1.timeline

/-- The jobs started on the way join the background activities with their shares. -/
theorem Reaches.background {role : Role} {Q : D.Post β} {others : Multiset D.Share}
    {before tl : Timeline S B.World} {p : Activity S β}
    (h : Reaches D role Q others before p tl) (hs : Sound D program Keeps Ends)
    {tasks : List (Task S × D.Share)} (htasks : tasks.map Prod.fst = before.tasks)
    (hback : ∀ x ∈ tasks, Background D before x) :
    ∃ (tasks' : List (Task S × D.Share)) (new : List D.Share),
      tasks'.map Prod.fst = tl.tasks ∧
      (tasks'.map Prod.snd : Multiset D.Share) = ↑(tasks.map Prod.snd) + ↑new ∧
      (∀ x ∈ tasks', Background D tl x) ∧
      ((∃ a, p = .done a ∧ Q a (↑new + others) tl) ∨
        ∃ share, Suspended D role Q share tl p ∧ D.Holds tl (share ::ₘ (↑new + others)) ∧
          canResume tl p = false) := by
  obtain ⟨jobs, new, hnew, hact, hend⟩ := h.settled
  obtain ⟨started, hstarted, hready⟩ := h.grown.tasks
  have hjobs : started.map (·.activity) = jobs.map B.start := by
    rw [hstarted, List.map_append] at hact
    exact List.append_cancel_left hact
  have hlen : started.length = new.length := by
    rw [← hnew.length_eq, ← List.length_map B.start, ← hjobs, List.length_map]
  refine ⟨tasks ++ started.zip new, new, ?_, ?_, ?_, hend⟩
  · rw [List.map_append, htasks, List.map_fst_zip (Nat.le_of_eq hlen), hstarted]
  · rw [List.map_append, List.map_snd_zip (Nat.le_of_eq hlen.symm), Multiset.coe_add]
  · intro x hx
    rcases List.mem_append.mp hx with hx | hx
    · exact (hback x hx).mono (h.grown.ready _) h.grown.later
    · obtain ⟨i, hi, hxi⟩ := List.mem_iff_getElem.mp hx
      rw [List.getElem_zip] at hxi
      rw [List.length_zip, ← hlen, Nat.min_self] at hi
      have hlenj : jobs.length = new.length := hnew.length_eq
      have hij : i < jobs.length := by omega
      have hin : i < new.length := by omega
      have hstart : D.Starts jobs[i] new[i] := (List.forall₂_iff_get.mp hnew).2 i hij hin
      have hactivity : started[i].activity = B.start jobs[i] := by
        have hget := congrArg (fun l => l[i]?) hjobs
        simpa [hi, hij] using hget
      rw [← hxi]
      refine Or.inl ⟨(hready _ (List.getElem_mem hi)).1, ?_, ?_⟩
      · rw [hactivity]
        exact hs.fresh hstart
      · intro after others hheld
        rw [hactivity]
        exact hs.jobs hstart hheld

theorem coe_map_insert {γ δ : Type} (first last : List (γ × δ)) (x : γ × δ) :
    ((first ++ x :: last).map Prod.snd : Multiset δ) =
      x.2 ::ₘ ((first ++ last).map Prod.snd : Multiset δ) := by
  rw [Multiset.cons_coe, Multiset.coe_eq_coe, ← List.map_cons]
  exact List.perm_middle.map _

/-- A background activity is found under its number, and leaves only others behind. -/
theorem Timeline.Orderly.split {tl : Timeline S B.World} (h : Orderly tl) {id : Nat} {task : Task S}
    (hfind : tl.tasks.find? (fun t => t.id == id) = some task) :
    task.id = id ∧ ∃ before after, tl.tasks = before ++ task :: after ∧
      tl.tasks.filter (·.id != id) = before ++ after ∧ ∀ t ∈ before ++ after, t.id ≠ id := by
  obtain ⟨hid, before, after, hsplit, -⟩ := List.find?_eq_some_iff_append.mp hfind
  have hid : task.id = id := by simpa using hid
  have hdistinct := h.distinct
  rw [hsplit, List.map_append, List.map_cons, List.nodup_append, List.nodup_cons] at hdistinct
  obtain ⟨-, ⟨hafter, -⟩, hbefore⟩ := hdistinct
  have hothers : ∀ t ∈ before ++ after, t.id ≠ id := by
    intro t ht hc
    rcases List.mem_append.mp ht with ht | ht
    · exact hbefore t.id (List.mem_map_of_mem ht) task.id (by simp) (hc.trans hid.symm)
    · refine hafter ?_
      rw [hid, ← hc]
      exact List.mem_map_of_mem ht
  refine ⟨hid, before, after, hsplit, ?_, hothers⟩
  rw [hsplit, List.filter_append, List.filter_cons, if_neg (by simp [hid]), ← List.filter_append]
  exact List.filter_eq_self.mpr fun t ht => by simpa using hothers t ht

/-- What is left after a background activity had its turn. -/
theorem runTask_of_find {tl : Timeline S B.World} {id : Nat} {task : Task S}
    (hfind : tl.tasks.find? (fun t => t.id == id) = some task) {p : Activity S Unit}
    {after : Timeline S B.World}
    (hp : resume B task.activity { tl with tasks := tl.tasks.filter (·.id != id) } = (p, after)) :
    (p = .done () → runTask B tl id = after) ∧
      ((∀ a, p ≠ .done a) →
        runTask B tl id = { after with tasks := after.tasks ++ [⟨id, p⟩] }) := by
  unfold runTask
  rw [hfind]
  simp only [hp]
  cases p with
  | done a => exact ⟨fun _ => rfl, fun h => absurd rfl (h a)⟩
  | ask r ws duties next stop => exact ⟨nofun, fun _ => rfl⟩

namespace Kept

variable {c : Crowd B ι α}

/-- A crowd in which nobody was started yet, beside jobs that have just been forked. -/
theorem init (hs : Sound D program Keeps Ends) {tl : Timeline S B.World} (ho : Orderly tl)
    (htasks : tl.tasks = []) {jobs : List S.Job} {new : List D.Share}
    (hnew : List.Forall₂ D.Starts jobs new) (hholds : D.Holds (tl.forkAll B jobs) ↑new) :
    Kept D Keeps Ends (.init (tl.forkAll B jobs) : Crowd B ι α) := by
  obtain ⟨ho', hgrown⟩ := Timeline.forkAll_orderly_grown (B := B) jobs ho
  have hreach : Reaches D .background (fun (_ : Unit) others after => D.Holds after others) 0 tl
      (.done ()) (tl.forkAll B jobs) := by
    refine ⟨ho', hgrown, jobs, new, hnew, Timeline.forkAll_activities jobs tl, Or.inl ⟨(), rfl, ?_⟩⟩
    rw [add_zero]
    exact hholds
  obtain ⟨tasks, started, htl, hshares, hback, hend⟩ :=
    hreach.background hs (List.map_nil.trans htasks.symm) (List.forall_mem_nil _)
  have hheld : D.Holds (tl.forkAll B jobs) ↑started := by
    rcases hend with ⟨a, -, hheld⟩ | ⟨share, hsuspended, -⟩
    · rwa [add_zero] at hheld
    · exact absurd hsuspended id
  refine ⟨ho', tasks, [], [], htl, rfl, rfl, ?_, hback, by simp, by simp⟩
  have hsum : (tasks.map Prod.snd : Multiset D.Share) + (↑([] : List D.Share) + ↑([] : List D.Share)) =
      ↑started := by
    rw [hshares]
    simp
  exact hsum ▸ hheld

/-- The crowd after one of its foreground activities, started then, has got somewhere. -/
theorem place (hs : Sound D program Keeps Ends) {before tl : Timeline S B.World} {who : ι}
    {began : Nat} {p : Activity S α} {tasks : List (Task S × D.Share)}
    {running : List (Member ι S α × D.Share)} {ended : List (Ending ι S B.World α × D.Share)}
    (h : Reaches D .foreground (D.endsWell Keeps Ends who began)
      (↑(tasks.map Prod.snd) + (↑(running.map Prod.snd) + ↑(ended.map Prod.snd))) before p tl)
    (hrunning : running.map Prod.fst = c.running) (hended : ended.map Prod.fst = c.ended)
    (htasks : tasks.map Prod.fst = before.tasks) (hback : ∀ x ∈ tasks, Background D before x)
    (hrun : ∀ x ∈ running, Suspended D .foreground (D.endsWell Keeps Ends x.1.who x.1.began) x.2 before
      x.1.activity)
    (hend : ∀ x ∈ ended, Keeps x.1.outcome x.2 ∧
      Ends x.1.who x.1.began x.1.outcome x.1.timeline) :
    Kept D Keeps Ends (c.place who began (p, tl)) := by
  obtain ⟨tasks', new, htasks', hnew, hback', hcase⟩ := h.background hs htasks hback
  have hrun' : ∀ x ∈ running, Suspended D .foreground (D.endsWell Keeps Ends x.1.who x.1.began) x.2 tl
      x.1.activity := fun x hx => (hrun x hx).later h.grown.later
  rcases hcase with ⟨a, rfl, share, hkeeps, hholds, hends⟩ | ⟨share, hsusp, hholds, -⟩
  · refine ⟨h.orderly, tasks', running, ended ++ [(⟨who, began, a, tl⟩, share)], htasks', hrunning,
      ?_, ?_, hback', hrun', ?_⟩
    · simp [Crowd.place, hended]
    · have hsum : (↑(tasks'.map Prod.snd) + (↑(running.map Prod.snd) +
          ↑((ended ++ [((⟨who, began, a, tl⟩ : Ending ι S B.World α), share)]).map Prod.snd)) :
            Multiset D.Share) =
          share ::ₘ (↑new + (↑(tasks.map Prod.snd) +
            (↑(running.map Prod.snd) + ↑(ended.map Prod.snd)))) := by
        rw [hnew, List.map_append, ← Multiset.coe_add, ← Multiset.singleton_add]
        simp only [List.map_cons, List.map_nil, Multiset.coe_singleton]
        abel
      rw [hsum]
      exact hholds
    · intro x hx
      rcases List.mem_append.mp hx with hx | hx
      · exact hend x hx
      · rw [List.mem_singleton.mp hx]
        exact ⟨hkeeps, hends⟩
  · cases p with
    | done a => exact absurd hsusp id
    | ask r ws duties next stop =>
      refine ⟨h.orderly, tasks', running ++ [(⟨who, began, .ask r ws duties next stop⟩, share)],
        ended, htasks', ?_, hended, ?_, hback', ?_, hend⟩
      · simp [Crowd.place, hrunning]
      · have hsum : (↑(tasks'.map Prod.snd) + (↑((running ++
            [((⟨who, began, .ask r ws duties next stop⟩ : Member ι S α), share)]).map Prod.snd) +
            ↑(ended.map Prod.snd)) : Multiset D.Share) =
            share ::ₘ (↑new + (↑(tasks.map Prod.snd) +
              (↑(running.map Prod.snd) + ↑(ended.map Prod.snd)))) := by
          rw [hnew, List.map_append, ← Multiset.coe_add, ← Multiset.singleton_add]
          simp only [List.map_cons, List.map_nil, Multiset.coe_singleton]
          abel
        rw [hsum]
        exact hholds
      · intro x hx
        rcases List.mem_append.mp hx with hx | hx
        · exact hrun' x hx
        · rw [List.mem_singleton.mp hx]
          exact hsusp

theorem enter (hs : Sound D program Keeps Ends) (h : Kept D Keeps Ends c) (who : ι) :
    Kept D Keeps Ends
      (c.place who c.timeline.clock (advance B (program who) c.timeline)) := by
  obtain ⟨tasks, running, ended, htasks, hrunning, hended, hholds, hback, hrun, hend⟩ := h.shares
  exact place hs (advance_runs h.orderly (hs.programs who hholds)) hrunning hended htasks hback
    hrun hend

theorem go (hs : Sound D program Keeps Ends) (h : Kept D Keeps Ends c)
    {before after : List (Member ι S α)} {m : Member ι S α}
    (hmem : c.running = before ++ m :: after) :
    Kept D Keeps Ends (({ c with running := before ++ after } : Crowd B ι α).place m.who m.began
      (resume B m.activity c.timeline)) := by
  obtain ⟨tasks, running, ended, htasks, hrunning, hended, hholds, hback, hrun, hend⟩ := h.shares
  rw [hmem] at hrunning
  obtain ⟨first, rest, rfl, hfirst, hrest⟩ := List.map_eq_append_iff.mp hrunning
  obtain ⟨⟨m', share⟩, last, rfl, rfl, hlast⟩ := List.map_eq_cons_iff.mp hrest
  have hm := hrun (m', share) (by simp)
  have hheld : D.Holds c.timeline (share ::ₘ (↑(tasks.map Prod.snd) +
      (↑((first ++ last).map Prod.snd) + ↑(ended.map Prod.snd)))) := by
    rw [← Multiset.add_cons, ← Multiset.cons_add, ← coe_map_insert first last (m', share)]
    exact hholds
  refine place hs (resume_runs h.orderly hm hheld) ?_ hended htasks hback ?_ hend
  · simp [hfirst, hlast]
  · intro x hx
    refine hrun x ?_
    rcases List.mem_append.mp hx with hx | hx
    · exact List.mem_append_left _ hx
    · exact List.mem_append_right _ (List.mem_cons_of_mem _ hx)

theorem task (hs : Sound D program Keeps Ends) (h : Kept D Keeps Ends c) (id : Nat) :
    Kept D Keeps Ends { c with
      timeline := runTask B { c.timeline with ready := c.timeline.ready.erase id } id } := by
  obtain ⟨tasks, running, ended, htasks, hrunning, hended, hholds, hback, hrun, hend⟩ := h.shares
  set tl : Timeline S B.World := { c.timeline with ready := c.timeline.ready.erase id } with htl
  set rest : Timeline S B.World := { tl with tasks := tl.tasks.filter (·.id != id) } with hrest
  have horder : Orderly rest := h.orderly.erase id
  have hlater : Later c.timeline rest := ⟨Nat.le_refl _, fun _ h => h, Nat.le_refl _, Nat.le_refl _⟩
  have hkeep : ∀ x : Task S × D.Share, x.1.id ≠ id → Background D c.timeline x →
      Background D rest x := fun x hne hx =>
    hx.mono (fun hr => (List.mem_erase_of_ne hne).mpr hr) hlater
  have hrun' : ∀ x ∈ running, Suspended D .foreground (D.endsWell Keeps Ends x.1.who x.1.began) x.2 rest
      x.1.activity := fun x hx => (hrun x hx).later hlater
  rcases hfind : tl.tasks.find? (fun t => t.id == id) with _ | task
  · -- Nobody has this number any more.
    have hnone : ∀ t ∈ c.timeline.tasks, t.id ≠ id := fun t ht => by
      simpa using List.find?_eq_none.mp hfind t ht
    have hsame : tl.tasks.filter (·.id != id) = tl.tasks :=
      List.filter_eq_self.mpr fun t ht => by simpa using hnone t ht
    have hstay : runTask B tl id = rest := by
      rw [hrest, hsame]
      unfold runTask
      rw [hfind]
    rw [hstay]
    refine ⟨horder, tasks, running, ended, ?_, hrunning, hended, ?_,
      fun x hx => hkeep x (hnone x.1 (htasks ▸ List.mem_map_of_mem hx)) (hback x hx), hrun', hend⟩
    · rw [hrest, hsame]
      exact htasks
    · refine D.ignores ?_ ?_ ?_ ?_ hholds <;> rfl
  · obtain ⟨hid, before, after, hsplit, hfilter, hothers⟩ := h.orderly.split hfind
    rw [hsplit] at htasks
    obtain ⟨first, others, rfl, hfirst, hothers'⟩ := List.map_eq_append_iff.mp htasks
    obtain ⟨⟨task', share⟩, last, rfl, rfl, hlast⟩ := List.map_eq_cons_iff.mp hothers'
    have hleft : (first ++ last).map Prod.fst = rest.tasks := by
      rw [List.map_append, hfirst, hlast]
      exact hfilter.symm
    have hback' : ∀ x ∈ first ++ last, Background D rest x := by
      intro x hx
      refine hkeep x (hothers x.1 ?_) (hback x ?_)
      · rw [← hfirst, ← hlast, ← List.map_append]
        exact List.mem_map_of_mem hx
      · exact List.perm_middle.symm.subset (List.mem_cons_of_mem _ hx)
    have hheld : D.Holds rest (share ::ₘ (↑((first ++ last).map Prod.snd) +
        (↑(running.map Prod.snd) + ↑(ended.map Prod.snd)))) := by
      rw [← Multiset.cons_add, ← coe_map_insert first last (task', share)]
      refine D.ignores ?_ ?_ ?_ ?_ hholds <;> rfl
    have hreach : Reaches D .background D.leaves (↑((first ++ last).map Prod.snd) +
        (↑(running.map Prod.snd) + ↑(ended.map Prod.snd))) rest
        (resume B task'.activity rest).1 (resume B task'.activity rest).2 := by
      rcases hback (task', share) (by simp) with ⟨-, hfresh, hruns⟩ | hsusp
      · rw [resume_of_watched_nil hfresh]
        exact advance_runs horder (hruns rest _ hheld)
      · exact resume_runs horder (hsusp.later hlater) hheld
    obtain ⟨tasks', new, htasks', hnew, hback'', hcase⟩ := hreach.background hs hleft hback'
    have hrun'' : ∀ x ∈ running, Suspended D .foreground (D.endsWell Keeps Ends x.1.who x.1.began) x.2
        (resume B task'.activity rest).2 x.1.activity := fun x hx =>
      (hrun' x hx).later hreach.grown.later
    have hsum : (↑(tasks'.map Prod.snd) + (↑(running.map Prod.snd) + ↑(ended.map Prod.snd)) :
        Multiset D.Share) = ↑new + (↑((first ++ last).map Prod.snd) +
          (↑(running.map Prod.snd) + ↑(ended.map Prod.snd))) := by
      rw [hnew]
      abel
    obtain ⟨hdone, hmore⟩ := runTask_of_find hfind (Prod.mk.eta (p := resume B task'.activity rest)).symm
    rcases hcase with ⟨⟨⟩, hp, hholds'⟩ | ⟨share', hsusp, hholds', hstuck⟩
    · rw [hdone hp]
      refine ⟨hreach.orderly, tasks', running, ended, htasks', hrunning, hended, ?_, hback'',
        hrun'', hend⟩
      rw [hsum]
      exact hholds'
    · have hlive : ∀ a, (resume B task'.activity rest).1 ≠ .done a := by
        intro a ha
        rw [ha] at hsusp
        exact hsusp
      rw [hmore hlive]
      have hnumber : id < rest.nextTask := hid ▸ h.orderly.numbered task' (by rw [hsplit]; simp)
      have hnew' : ∀ t ∈ (resume B task'.activity rest).2.tasks, t.id ≠ id := by
        obtain ⟨started, hstarted, hready⟩ := hreach.grown.tasks
        intro t ht
        rw [hstarted] at ht
        rcases List.mem_append.mp ht with ht | ht
        · exact hothers t (hfilter ▸ ht)
        · exact fun hc => Nat.lt_irrefl _ (Nat.lt_of_lt_of_le (hc ▸ hnumber) (hready t ht).2)
      refine ⟨hreach.orderly.suspend hnew' (Nat.lt_of_lt_of_le hnumber hreach.grown.nextTask) hstuck
        hsusp.watched_lt, tasks' ++ [(⟨id, (resume B task'.activity rest).1⟩, share')], running, ended,
        ?_, hrunning, hended, ?_, ?_, ?_, hend⟩
      · simp [htasks']
      · rw [coe_map_insert tasks' [] (_, share'), List.append_nil, Multiset.cons_add, hsum]
        refine D.ignores ?_ ?_ ?_ ?_ hholds' <;> rfl
      · intro x hx
        rcases List.mem_append.mp hx with hx | hx
        · exact (hback'' x hx).mono (fun hr => hr) ⟨Nat.le_refl _, fun _ h => h, Nat.le_refl _, Nat.le_refl _⟩
        · rw [List.mem_singleton.mp hx]
          exact Or.inr (hsusp.later ⟨Nat.le_refl _, fun _ h => h, Nat.le_refl _, Nat.le_refl _⟩)
      · exact fun x hx => (hrun'' x hx).later ⟨Nat.le_refl _, fun _ h => h, Nat.le_refl _, Nat.le_refl _⟩

/-- Where the queue is empty, every background activity waits for something that has not happened. -/
theorem halted_of_ready_nil {tl : Timeline S B.World} (ho : Orderly tl) (hready : tl.ready = [])
    {x : Task S × D.Share} (hmem : x.1 ∈ tl.tasks) (hx : Background D tl x) :
    Halted D .background tl x.2 x.1.activity := by
  have hidle : x.1.id ∉ tl.ready := by simp [hready]
  rcases hx with ⟨hqueued, -⟩ | hsusp
  · exact absurd hqueued hidle
  · exact hsusp.halted (Bool.eq_false_iff.mpr fun hc => hidle (ho.queued x.1 hmem hc))

theorem stuck_of_ready_nil {tl : Timeline S B.World} (ho : Orderly tl) (hready : tl.ready = [])
    {x : Task S × D.Share} (hmem : x.1 ∈ tl.tasks) (hx : Background D tl x) :
    ∃ r ws duties, D.Parked .background x.2 r ws duties ∧ Stuck B tl r ws ∧
      ∀ wake, r = .sleepUntil wake → wakeTime x.1.activity = some wake := by
  have hhalted := halted_of_ready_nil ho hready hmem hx
  cases hp : x.1.activity with
  | done a => rw [hp] at hhalted; exact absurd hhalted id
  | ask r ws duties next stop =>
    rw [hp] at hhalted
    refine ⟨r, ws, duties, hhalted.1, hhalted.2, ?_⟩
    rintro wake rfl
    rfl

theorem wait (hs : Sound D program Keeps Ends) (h : Kept D Keeps Ends c) {time : Nat}
    (hready : c.timeline.ready = [])
    (hstuck : ∀ m ∈ c.running, canResume c.timeline m.activity = false)
    (hle : c.timeline.clock ≤ time)
    (htasks : ∀ task ∈ c.timeline.tasks, ∀ wake ∈ wakeTime task.activity, time ≤ wake)
    (hrunning : ∀ m ∈ c.running, ∀ wake ∈ wakeTime m.activity, time ≤ wake) :
    Kept D Keeps Ends { c with timeline := c.timeline.moveClock time } := by
  obtain ⟨tasks, running, ended, htl, hrl, hel, hholds, hback, hrun, hend⟩ := h.shares
  have hlater : Later c.timeline (c.timeline.moveClock time) :=
    ⟨hle, fun _ h => h, Nat.le_refl _, Nat.le_refl _⟩
  refine ⟨h.orderly.stir (moveClock_stirred _ _), tasks, running, ended, htl, hrl, hel, ?_,
    fun x hx => (hback x hx).mono (fun hr => (moveClock_stirred _ _).ready _ hr) hlater,
    fun x hx => (hrun x hx).later hlater, hend⟩
  refine D.ignores ?_ ?_ ?_ ?_ (hs.waits hholds hle ?_) <;> try rfl
  intro share hshare
  simp only [Multiset.mem_add, Multiset.mem_coe, List.mem_map] at hshare
  rcases hshare with ⟨x, hx, rfl⟩ | ⟨x, hx, rfl⟩ | ⟨x, hx, rfl⟩
  · have hmem : x.1 ∈ c.timeline.tasks := htl ▸ List.mem_map_of_mem hx
    obtain ⟨r, ws, duties, hparked, hst, hwake⟩ :=
      stuck_of_ready_nil h.orderly hready hmem (hback x hx)
    exact Or.inr ⟨.background, r, ws, duties, hparked, hst,
      fun wake hr => htasks x.1 hmem wake (hwake wake hr)⟩
  · have hmem : x.1 ∈ c.running := hrl ▸ List.mem_map_of_mem hx
    have hsusp := hrun x hx
    have hcan := hstuck x.1 hmem
    have hwake := hrunning x.1 hmem
    cases hp : x.1.activity with
    | done a => rw [hp] at hsusp; exact absurd hsusp id
    | ask r ws duties next stop =>
      rw [hp] at hsusp hcan hwake
      refine Or.inr ⟨.foreground, r, ws, duties, hsusp.1, stuck_of_canResume hcan, ?_⟩
      rintro wake rfl
      exact hwake wake rfl
  · exact Or.inl ⟨_, (hend x hx).1⟩

theorem step (hs : Sound D program Keeps Ends) (h : Kept D Keeps Ends c) {c' : Crowd B ι α}
    (hstep : Crowd.Step B program c c') : Kept D Keeps Ends c' := by
  cases hstep with
  | task id hready => exact h.task hs id
  | enter who => exact h.enter hs who
  | go before after m hmem hresume => exact h.go hs hmem
  | wait time hready hstuck hle htasks hrunning =>
    exact h.wait hs hready hstuck hle htasks hrunning

theorem steps (hs : Sound D program Keeps Ends) (h : Kept D Keeps Ends c) {c' : Crowd B ι α}
    (hsteps : ReflTransGen (Crowd.Step B program) c c') : Kept D Keeps Ends c' := by
  induction hsteps with
  | refl => exact h
  | tail _ hstep ih => exact ih.step hs hstep

/-- Every foreground activity that has ended ended as it should. -/
theorem ends (h : Kept D Keeps Ends c) :
    ∀ e ∈ c.ended, Ends e.who e.began e.outcome e.timeline := by
  obtain ⟨tasks, running, ended, -, -, hended, -, -, -, hend⟩ := h.shares
  intro e he
  rw [← hended] at he
  obtain ⟨x, hx, rfl⟩ := List.mem_map.mp he
  exact (hend x hx).2

/-- When nobody can go on, everybody there waits with a share, and the other shares are kept by whoever
has ended. -/
theorem resting (h : Kept D Keeps Ends c) (hrest : c.Resting) :
    ∃ shares : Multiset D.Share, D.Holds c.timeline shares ∧
      (∀ share ∈ shares, (∃ a, Keeps a share) ∨
        (∃ task ∈ c.timeline.tasks, Halted D .background c.timeline share task.activity) ∨
        ∃ m ∈ c.running, Halted D .foreground c.timeline share m.activity) ∧
      (∀ task ∈ c.timeline.tasks, ∃ share ∈ shares, Halted D .background c.timeline share task.activity) ∧
      ∀ m ∈ c.running, ∃ share ∈ shares, Halted D .foreground c.timeline share m.activity := by
  obtain ⟨tasks, running, ended, htl, hrl, -, hholds, hback, hrun, hend⟩ := h.shares
  have htask : ∀ x ∈ tasks, Halted D .background c.timeline x.2 x.1.activity := fun x hx =>
    halted_of_ready_nil h.orderly hrest.background (htl ▸ List.mem_map_of_mem hx) (hback x hx)
  have hmember : ∀ x ∈ running, Halted D .foreground c.timeline x.2 x.1.activity := fun x hx =>
    (hrun x hx).halted (hrest.foreground x.1 (hrl ▸ List.mem_map_of_mem hx))
  refine ⟨_, hholds, fun share hshare => ?_, fun task ht => ?_, fun m hm => ?_⟩
  · simp only [Multiset.mem_add, Multiset.mem_coe, List.mem_map] at hshare
    rcases hshare with ⟨x, hx, rfl⟩ | ⟨x, hx, rfl⟩ | ⟨x, hx, rfl⟩
    · exact Or.inr (Or.inl ⟨x.1, htl ▸ List.mem_map_of_mem hx, htask x hx⟩)
    · exact Or.inr (Or.inr ⟨x.1, hrl ▸ List.mem_map_of_mem hx, hmember x hx⟩)
    · exact Or.inl ⟨_, (hend x hx).1⟩
  · obtain ⟨x, hx, rfl⟩ := List.mem_map.mp (htl ▸ ht)
    exact ⟨x.2, Multiset.mem_add.mpr (Or.inl (Multiset.mem_coe.mpr (List.mem_map_of_mem hx))), htask x hx⟩
  · obtain ⟨x, hx, rfl⟩ := List.mem_map.mp (hrl ▸ hm)
    exact ⟨x.2, Multiset.mem_add.mpr (Or.inr (Multiset.mem_add.mpr
      (Or.inl (Multiset.mem_coe.mpr (List.mem_map_of_mem hx))))), hmember x hx⟩

/-- When nobody is in the foreground any more and the queue is empty, the shares are those of
activities that can do nothing, and what the others keep. -/
theorem idle (h : Kept D Keeps Ends c) (hready : c.timeline.ready = []) (hrun : c.running = []) :
    ∃ (waiting : Multiset D.Share) (ended : List (Ending ι S B.World α × D.Share)),
      D.Holds c.timeline (waiting + ↑(ended.map Prod.snd)) ∧ ended.map Prod.fst = c.ended ∧
      (∀ share ∈ waiting, ∃ r ws duties, D.Parked .background share r ws duties ∧ Stuck B c.timeline r ws) ∧
      ∀ x ∈ ended, Keeps x.1.outcome x.2 := by
  obtain ⟨tasks, running, ended, htl, hrl, hel, hholds, hback, -, hend⟩ := h.shares
  have hnil : running = [] := List.map_eq_nil_iff.mp (hrl.trans hrun)
  subst hnil
  refine ⟨↑(tasks.map Prod.snd), ended, by simpa using hholds, hel, ?_, fun x hx => (hend x hx).1⟩
  intro share hshare
  obtain ⟨x, hx, rfl⟩ := List.mem_map.mp (Multiset.mem_coe.mp hshare)
  obtain ⟨r, ws, duties, hparked, hst, -⟩ :=
    stuck_of_ready_nil h.orderly hready (htl ▸ List.mem_map_of_mem hx) (hback x hx)
  exact ⟨r, ws, duties, hparked, hst⟩

end Kept

/-! ### A run as a crowd of one -/

/-- The crowd in which one activity runs, or has ended. -/
structure Alone (who : ι) (began : Nat) (run : Run S B.World α) (c : Crowd B ι α) : Prop where
  timeline : c.timeline = run.timeline
  whole : (∃ a tl, run.main = .done a ∧ c.running = [] ∧ c.ended = [⟨who, began, a, tl⟩]) ∨
    ((∀ a, run.main ≠ .done a) ∧ c.running = [⟨who, began, run.main⟩] ∧ c.ended = [])

theorem alone_place {c : Crowd B ι α} (hrunning : c.running = []) (hended : c.ended = [])
    (who : ι) (began : Nat) (p : Activity S α) (tl : Timeline S B.World) (limit : Option Nat) :
    Alone who began ⟨p, tl, limit⟩ (c.place who began (p, tl)) := by
  cases p with
  | done a => exact ⟨rfl, Or.inl ⟨a, tl, rfl, hrunning, by simp [Crowd.place, hended]⟩⟩
  | ask r ws duties next stop =>
    exact ⟨rfl, Or.inr ⟨nofun, by simp [Crowd.place, hrunning], hended⟩⟩

/-- Everybody who waits for a time that has come is queued or can go on. -/
theorem lt_wake {tl : Timeline S B.World} {p : Activity S α} (h : canResume tl p = false) :
    ∀ wake ∈ wakeTime p, tl.clock < wake := by
  intro wake hwake
  cases p with
  | done a => simp [wakeTime] at hwake
  | ask r ws duties next stop =>
    cases r with
    | sleepUntil time =>
      have htime : time = wake := by simpa [wakeTime] using hwake
      have hnot : ¬ time ≤ tl.clock := by
        have := (stuck_of_canResume h).2
        intro hc
        simp [Timeline.perform, hc] at this
      omega
    | _ => simp [wakeTime] at hwake

/-- The next time somebody waits for lies ahead, and nobody waits for an earlier one. -/
theorem nextTime_spec {run : Run S B.World α} (ho : Orderly run.timeline)
    (hready : run.timeline.ready = []) (hcan : canResume run.timeline run.main = false)
    (hlimit : run.limit = none) {time : Nat} (htime : run.nextTime = some time) :
    run.timeline.clock ≤ time ∧
      (∀ task ∈ run.timeline.tasks, ∀ wake ∈ wakeTime task.activity, time ≤ wake) ∧
      ∀ wake ∈ wakeTime run.main, time ≤ wake := by
  have htasks : ∀ task ∈ run.timeline.tasks, ∀ wake ∈ wakeTime task.activity,
      run.timeline.clock < wake := by
    intro task htask
    refine lt_wake (Bool.eq_false_iff.mpr fun hc => ?_)
    have hqueued := ho.queued task htask hc
    simp [hready] at hqueued
  unfold Run.nextTime at htime
  rw [hlimit, List.min?_eq_some_iff] at htime
  obtain ⟨hmem, hleast⟩ := htime
  simp only [Option.toList_none, List.append_nil, List.mem_append, Option.mem_toList] at hmem hleast
  refine ⟨?_, ?_, fun wake hwake => hleast wake (Or.inl hwake)⟩
  · rcases hmem with hmem | hmem
    · exact Nat.le_of_lt (lt_wake hcan time hmem)
    · obtain ⟨task, htask, hwake⟩ := List.mem_filterMap.mp (List.min?_mem hmem)
      exact Nat.le_of_lt (htasks task htask time hwake)
  · intro task htask wake hwake
    have hin : wake ∈ run.timeline.tasks.filterMap fun t => wakeTime t.activity :=
      List.mem_filterMap.mpr ⟨task, htask, hwake⟩
    rcases hnext : run.timeline.nextWake with _ | first
    · unfold Timeline.nextWake at hnext
      rw [List.min?_eq_none_iff.mp hnext] at hin
      simp at hin
    · refine Nat.le_trans (hleast first (Or.inr hnext)) ?_
      exact (List.min?_eq_some_iff.mp hnext).2 wake hin

/-- One turn of a run is a step of the crowd. -/
theorem Alone.step (program : ι → Activity S α) {who : ι} {began : Nat}
    {run next : Run S B.World α} {c : Crowd B ι α} (h : Alone who began run c) (ho : Orderly c.timeline) (hlimit : run.limit = none)
    (hstep : run.step B = some next) :
    ∃ c', Crowd.Step B program c c' ∧ Alone who began next c' := by
  obtain ⟨htl, hwhole⟩ := h
  unfold Run.step at hstep
  split at hstep
  · rename_i id rest hready
    have hid : id ∈ c.timeline.ready := by rw [htl, hready]; simp
    refine ⟨_, .task id hid, ?_⟩
    have herase : c.timeline.ready.erase id = rest := by rw [htl, hready]; simp
    rw [← Option.some.inj hstep, herase, htl]
    exact ⟨rfl, hwhole⟩
  · rename_i hready
    rcases hwhole with ⟨a, tl, hmain, -, -⟩ | ⟨hlive, hrunning, hended⟩
    · simp [Run.isDone, hmain] at hstep
    have hdone : run.isDone = false := by
      cases hm : run.main with
      | done a => exact absurd hm (hlive a)
      | ask r ws duties next stop => simp [Run.isDone, hm]
    simp only [hdone, Bool.false_eq_true, if_false] at hstep
    split at hstep
    · rename_i hcan
      have hcan' : canResume c.timeline run.main = true := by rw [htl]; exact hcan
      refine ⟨_, .go [] [] ⟨who, began, run.main⟩ (by simpa using hrunning) hcan', ?_⟩
      rw [← Option.some.inj hstep, htl]
      exact alone_place (c := { c with running := [] }) rfl hended who began _ _ run.limit
    · rename_i hcan
      have hcan : canResume run.timeline run.main = false := Bool.eq_false_iff.mpr hcan
      simp only [Run.isOver, hlimit, Option.any_none, Bool.false_eq_true, if_false] at hstep
      split at hstep
      · rename_i time htime
        rw [htl] at ho
        obtain ⟨hle, htasks, hmain⟩ := nextTime_spec ho hready hcan hlimit htime
        refine ⟨_, .wait time (by rw [htl]; exact hready) ?_ (by rw [htl]; exact hle)
          (by rw [htl]; exact htasks) ?_, ?_⟩
        · intro m hm
          rw [hrunning, List.mem_singleton] at hm
          rw [hm, htl]
          exact hcan
        · intro m hm
          rw [hrunning, List.mem_singleton] at hm
          rw [hm]
          exact hmain
        · rw [← Option.some.inj hstep, htl]
          exact ⟨rfl, Or.inr ⟨hlive, hrunning, hended⟩⟩
      · simp at hstep

theorem step_limit {run next : Run S B.World α} (h : run.step B = some next) :
    next.limit = run.limit := by
  unfold Run.step at h
  repeat' split at h
  all_goals first
    | (cases h; rfl)
    | cases h

theorem finish_steps {who : ι} {began : Nat} (fuel : Nat) {run : Run S B.World α}
    {c : Crowd B ι α} (h : Alone who began run c) (hlimit : run.limit = none)
    (ho : ∀ c', ReflTransGen (Crowd.Step B program) c c' → Orderly c'.timeline) :
    ∃ c', ReflTransGen (Crowd.Step B program) c c' ∧ Alone who began (run.finish B fuel) c' := by
  induction fuel generalizing run c with
  | zero => exact ⟨c, .refl, h⟩
  | succ fuel ih =>
    unfold Run.finish
    rcases hstep : run.step B with _ | next
    · exact ⟨c, .refl, h⟩
    · obtain ⟨mid, hmid, halone⟩ := h.step program (ho c .refl) hlimit hstep
      obtain ⟨c', hc', halone'⟩ := ih halone ((step_limit hstep).trans hlimit)
        fun c' hc' => ho c' (.head hmid hc')
      exact ⟨c', .head hmid hc', halone'⟩

/-- To let the background go on is a matter of turns in the crowd. -/
theorem settle_steps (fuel : Nat) (tl : Timeline S B.World) (limit : Option Nat)
    {c : Crowd B ι α} (h : c.timeline = tl) :
    ReflTransGen (Crowd.Step B program) c
      { c with timeline := (Run.finish B fuel ⟨Activity.done (), tl, limit⟩).timeline } := by
  induction fuel generalizing tl c with
  | zero => rw [← h]; exact .refl
  | succ fuel ih =>
    unfold Run.finish
    rcases hready : tl.ready with _ | ⟨id, rest⟩
    · have hover : Run.step B ⟨Activity.done (), tl, limit⟩ = none := by
        simp [Run.step, hready, Run.isDone]
      rw [hover, ← h]
    · have hstep : Run.step B ⟨Activity.done (), tl, limit⟩ =
          some ⟨Activity.done (), runTask B { tl with ready := rest } id, limit⟩ := by
        simp [Run.step, hready]
      rw [hstep]
      have hid : id ∈ c.timeline.ready := by rw [h, hready]; simp
      have herase : c.timeline.ready.erase id = rest := by rw [h, hready]; simp
      have hfirst : Crowd.Step B program c _ := .task id hid
      rw [herase, h] at hfirst
      exact .head hfirst (ih _ rfl)

section Start

variable (who : ι) {tl : Timeline S B.World}
  (ho : ∀ c, ReflTransGen (Crowd.Step B program) (.init tl) c → Orderly c.timeline)

include ho

/-- However far an activity was run, it has gone through a crowd of one. -/
theorem start_steps (turns : Nat) :
    ∃ c : Crowd B ι α, ReflTransGen (Crowd.Step B program) (.init tl) c ∧
      Alone who tl.clock (Run.finish B turns (Run.start B (program who) tl none)) c := by
  have hfirst : Crowd.Step B program (.init tl) _ := .enter who
  have halone : Alone who tl.clock (Run.start B (program who) tl none)
      ((Crowd.init tl : Crowd B ι α).place who tl.clock (advance B (program who) tl)) :=
    alone_place rfl rfl who tl.clock _ _ none
  obtain ⟨c, hc, hwhole⟩ := finish_steps turns halone rfl fun c' hc' => ho c' (.head hfirst hc')
  exact ⟨c, .head hfirst hc, hwhole⟩

/-- An activity that has not ended after so many turns is pending in a crowd of one. -/
theorem pending_steps {turns : Nat}
    (h : ∀ a, (Run.finish B turns (Run.start B (program who) tl none)).main ≠ .done a) :
    ∃ c : Crowd B ι α, ReflTransGen (Crowd.Step B program) (.init tl) c ∧
      c.timeline = (Run.finish B turns (Run.start B (program who) tl none)).timeline ∧
      c.running = [⟨who, tl.clock, (Run.finish B turns (Run.start B (program who) tl none)).main⟩] ∧
      c.ended = [] := by
  obtain ⟨c, hc, htl, hwhole⟩ := start_steps who ho turns
  rcases hwhole with ⟨a, -, hmain, -, -⟩ | ⟨-, hrunning, hended⟩
  · exact absurd hmain (h a)
  · exact ⟨c, hc, htl, hrunning, hended⟩

variable {who} in
/-- An activity that was run to its end has gone through a crowd of one. -/
theorem run_steps {budget : Nat} {after : Timeline S B.World} {a : α}
    (h : Timeline.run B budget (program who) tl = (some a, after)) :
    ∃ (c : Crowd B ι α) (last : Timeline S B.World),
      ReflTransGen (Crowd.Step B program) (.init tl) c ∧ c.timeline = after ∧ c.running = [] ∧
      c.ended = [⟨who, tl.clock, a, last⟩] := by
  obtain ⟨c, hc, htl, hwhole⟩ := start_steps who ho budget
  unfold Timeline.run at h
  set last := Run.finish B budget (Run.start B (program who) tl none) with hlast
  rcases hwhole with ⟨a', tl', hmain, hrunning, hended⟩ | ⟨hlive, -, -⟩
  · simp only [hmain, Timeline.giveUp, Prod.mk.injEq, Option.some.injEq] at h
    obtain ⟨rfl, rfl⟩ := h
    exact ⟨_, tl', hc.trans (settle_steps budget _ none htl), rfl, hrunning, hended⟩
  · cases hm : last.main with
    | done a' => exact absurd hm (hlive a')
    | ask r ws duties next stop => simp [hm, Timeline.giveUp] at h

end Start

end Wayfind.Activity
