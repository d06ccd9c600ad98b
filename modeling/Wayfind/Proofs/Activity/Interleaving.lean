/-
Activities that give way after every request.

The queue of a timeline lets whoever runs go on until a request has to wait.  Programs whose
activities run side by side promise less: between any two requests of one, anybody else may make
theirs.  A mingling lets whoever is there make one request at a time, in any order, while time
passes as it likes; the turns of a crowd are such (`exists_mingled_steps`), so what holds of all minglings
holds of all crowds and all runs.

What a mingling looks like from within one background activity is a `Walk`: its own questions, one
after another, each answered by whatever world it finds (`Mingled.standing`).  Of the worlds it finds it
can rely on what every answer keeps (`Mingled.ages`), and nobody can keep an activity from its end that
waits for nothing but time (`Mingled.exists_end`).
-/
import Wayfind.Proofs.Activity.Trail
import Wayfind.Proofs.Activity.Walk

namespace Wayfind.Activity

open Timeline (advance resume runTask onward)

variable {S : Signature} {B : Backend S} {α β : Type}

/-! ### Numbers of background activities -/

/-- The numbers of the background activities are distinct, and used up. -/
structure Numbered {World : Type} (tl : Timeline S World) : Prop where
  distinct : (tl.tasks.map (·.id)).Nodup
  used : ∀ task ∈ tl.tasks, task.id < tl.nextTask

/-- Background activities were only added, each under the next number. -/
def Adds {World : Type} (tl after : Timeline S World) : Prop :=
  ∃ started : List (Task S), after.tasks = tl.tasks ++ started ∧
    started.map (·.id) = List.range' tl.nextTask started.length ∧
    after.nextTask = tl.nextTask + started.length

theorem adds_of_same {World : Type} {tl after : Timeline S World} (htasks : after.tasks = tl.tasks)
    (hnext : after.nextTask = tl.nextTask) : Adds tl after :=
  ⟨[], by rw [htasks, List.append_nil], rfl, hnext⟩

theorem forkAll_adds (jobs : List S.Job) (tl : Timeline S B.World) : Adds tl (tl.forkAll B jobs) := by
  induction jobs generalizing tl with
  | nil => exact adds_of_same rfl rfl
  | cons job rest ih =>
    obtain ⟨started, htasks, hids, hnext⟩ := ih (tl.fork B job)
    refine ⟨⟨tl.nextTask, B.start job⟩ :: started, ?_, ?_, ?_⟩
    · rw [List.append_cons]
      exact htasks
    · rw [List.map_cons, List.length_cons, List.range'_succ, hids]
      rfl
    · rw [List.length_cons, Nat.add_comm started.length, ← Nat.add_assoc]
      exact hnext

theorem perform_adds {tl after : Timeline S B.World} {r : Request S} {a : r.Answer}
    (hp : Timeline.perform B tl r = some (a, after)) : Adds tl after := by
  cases Timeline.performs hp with
  | query q =>
    exact forkAll_adds (B := B) (B.answer q tl.world).2.2 { tl with world := (B.answer q tl.world).2.1 }
  | fork job => exact forkAll_adds [job] tl
  | close inbox => exact forkAll_adds (B := B) _ (tl.modifyInbox inbox fun _ => ⟨[], true⟩)
  | cancel t =>
    exact adds_of_same (Timeline.cancel_stirred tl t).tasks (Timeline.cancel_stirred tl t).nextTask
  | post inbox m =>
    unfold Timeline.post
    split <;> exact adds_of_same rfl rfl
  | _ => exact adds_of_same rfl rfl

namespace Numbered

variable {World : Type} {tl after : Timeline S World}

theorem adds (h : Numbered tl) (hadds : Adds tl after) :
    Numbered after ∧ tl.nextTask ≤ after.nextTask ∧
      ∀ task ∈ after.tasks, task ∈ tl.tasks ∨ tl.nextTask ≤ task.id := by
  obtain ⟨started, htasks, hids, hnext⟩ := hadds
  have hnew : ∀ task ∈ started, tl.nextTask ≤ task.id ∧ task.id < after.nextTask := by
    intro task htask
    have hmem := List.mem_map_of_mem (f := Task.id) htask
    rw [hids, List.mem_range'_1] at hmem
    rwa [hnext]
  refine ⟨⟨?_, ?_⟩, by omega, ?_⟩
  · rw [htasks, List.map_append, hids]
    refine List.nodup_append.mpr ⟨h.distinct, List.nodup_range', ?_⟩
    rintro i hi j hj rfl
    obtain ⟨task, htask, rfl⟩ := List.mem_map.mp hi
    exact absurd (List.mem_range'_1.mp hj).1 (Nat.not_le.mpr (h.used task htask))
  · intro task htask
    rw [htasks] at htask
    rcases List.mem_append.mp htask with hold | hstarted
    · exact Nat.lt_of_lt_of_le (h.used task hold) (by omega)
    · exact (hnew task hstarted).2
  · intro task htask
    rw [htasks] at htask
    exact (List.mem_append.mp htask).imp_right fun hstarted => (hnew task hstarted).1

/-- The numbers, whatever the activities are and whichever way they stand. -/
theorem perm (h : Numbered tl) {tasks : List (Task S)}
    (hperm : (tasks.map (·.id)).Perm (tl.tasks.map (·.id))) (hnext : after.nextTask = tl.nextTask)
    (htasks : after.tasks = tasks) : Numbered after := by
  refine ⟨?_, fun task htask => ?_⟩
  · rw [htasks]
    exact hperm.nodup_iff.mpr h.distinct
  · rw [htasks] at htask
    obtain ⟨old, hold, hsame⟩ := List.mem_map.mp (hperm.subset (List.mem_map_of_mem htask))
    rw [hnext, ← hsame]
    exact h.used old hold

theorem tail {task : Task S} {rest : List (Task S)} (h : Numbered tl)
    (htasks : tl.tasks = task :: rest) :
    Numbered { tl with tasks := rest } ∧ ∀ other ∈ rest, other.id ≠ task.id := by
  have hdistinct := h.distinct
  rw [htasks, List.map_cons, List.nodup_cons] at hdistinct
  refine ⟨⟨hdistinct.2, fun other hother => h.used other ?_⟩, fun other hother hsame => ?_⟩
  · rw [htasks]
    exact List.mem_cons_of_mem _ hother
  · exact hdistinct.1 (hsame ▸ List.mem_map_of_mem hother)

theorem snoc {task : Task S} (h : Numbered tl) (hnew : ∀ other ∈ tl.tasks, other.id ≠ task.id)
    (hused : task.id < tl.nextTask) : Numbered { tl with tasks := tl.tasks ++ [task] } := by
  refine ⟨?_, fun other hother => ?_⟩
  · rw [List.map_append, List.map_singleton]
    refine List.nodup_append.mpr ⟨h.distinct, List.nodup_singleton _, ?_⟩
    rintro i hi j hj rfl
    obtain ⟨other, hother, rfl⟩ := List.mem_map.mp hi
    exact hnew other hother (List.mem_singleton.mp hj)
  · rcases List.mem_append.mp hother with hold | hlast
    · exact h.used other hold
    · rw [List.mem_singleton.mp hlast]
      exact hused

/-- A background activity has left for its turn and joins the others again. -/
theorem rejoin {task : Task S} {rest : List (Task S)} (h : Numbered tl)
    (htasks : tl.tasks = task :: rest) (hadds : Adds { tl with tasks := rest } after)
    (q : Activity S Unit) :
    tl.nextTask ≤ after.nextTask ∧ Numbered { after with tasks := after.tasks ++ [⟨task.id, q⟩] } := by
  obtain ⟨hrest, hothers⟩ := h.tail htasks
  obtain ⟨hafter, hnext, hold⟩ := hrest.adds hadds
  have hused := h.used task (by rw [htasks]; exact List.mem_cons_self)
  refine ⟨hnext, hafter.snoc (fun t ht => ?_) (Nat.lt_of_lt_of_le hused hnext)⟩
  rcases hold t ht with ht | ht
  · exact hothers t ht
  · exact Nat.ne_of_gt (Nat.lt_of_lt_of_le hused ht)

/-- A background activity, found under its number, and all others. -/
theorem perm_of_find (h : Numbered tl) {id : Nat} {task : Task S}
    (hfind : tl.tasks.find? (·.id == id) = some task) :
    task.id = id ∧ (task :: tl.tasks.filter (·.id != id)).Perm tl.tasks := by
  obtain ⟨hid, before, rest, hsplit, -⟩ := List.find?_eq_some_iff_append.mp hfind
  obtain rfl : task.id = id := by simpa using hid
  have hdistinct := h.distinct
  rw [hsplit, List.map_append, List.map_cons, List.nodup_middle, List.nodup_cons,
    ← List.map_append] at hdistinct
  have hothers : (before ++ rest).filter (·.id != task.id) = before ++ rest := by
    refine List.filter_eq_self.mpr fun other hother => bne_iff_ne.mpr fun hsame => ?_
    exact hdistinct.1 (hsame ▸ List.mem_map_of_mem hother)
  refine ⟨rfl, ?_⟩
  rw [hsplit, List.filter_append, List.filter_cons_of_neg (by simp), ← List.filter_append, hothers]
  exact List.perm_middle.symm

end Numbered

/-! ### Minglings -/

/-- A question to the world, and which background activity asked it; none for anybody else. -/
structure Deed (B : Backend S) where
  who : Option Nat
  moment : Moment S.Query B.World

/-- Somebody asks the world. -/
def deedsOf (who : Option Nat) (moments : List (Moment S.Query B.World)) : List (Deed B) :=
  moments.map (⟨who, ·⟩)

/-- What can become of a timeline when whoever is there makes one request at a time, and what the
world was asked on the way. -/
inductive Mingled (B : Backend S) (start : Timeline S B.World) :
    List (Deed B) → Timeline S B.World → Prop
  | start : Mingled B start [] start
  /-- A background activity makes a request. -/
  | asks {deeds : List (Deed B)} {tl mid : Timeline S B.World} {id : Nat} {rest : List (Task S)}
      {r : Request S} {watched : List Token} {duties : List (Duty S)}
      {next : r.Answer → Activity S Unit} {stop : (t : Token) → t ∈ watched → Activity S Unit}
      {a : r.Answer} (h : Mingled B start deeds tl)
      (htasks : tl.tasks = ⟨id, .ask r watched duties next stop⟩ :: rest)
      (hp : Timeline.perform B { tl with tasks := rest } r = some (a, mid)) :
      Mingled B start (deeds ++ deedsOf (some id) (r.moments tl.world))
        { mid with tasks := mid.tasks ++ [⟨id, next a⟩] }
  /-- A background activity is interrupted by a token it watches. -/
  | stops {deeds : List (Deed B)} {tl : Timeline S B.World} {id : Nat} {rest : List (Task S)}
      {r : Request S} {watched : List Token} {duties : List (Duty S)}
      {next : r.Answer → Activity S Unit} {stop : (t : Token) → t ∈ watched → Activity S Unit}
      (h : Mingled B start deeds tl)
      (htasks : tl.tasks = ⟨id, .ask r watched duties next stop⟩ :: rest) (t : Token)
      (ht : t ∈ watched) (hcancelled : tl.isCancelled t = true) :
      Mingled B start deeds { tl with tasks := rest ++ [⟨id, stop t ht⟩] }
  /-- A background activity that has ended is no more. -/
  | ends {deeds : List (Deed B)} {tl : Timeline S B.World} {id : Nat} {rest : List (Task S)}
      (h : Mingled B start deeds tl) (htasks : tl.tasks = ⟨id, .done ()⟩ :: rest) :
      Mingled B start deeds { tl with tasks := rest }
  /-- Anybody else makes a request. -/
  | outside {deeds : List (Deed B)} {tl after : Timeline S B.World} {r : Request S} {a : r.Answer}
      (h : Mingled B start deeds tl) (hp : Timeline.perform B tl r = some (a, after)) :
      Mingled B start (deeds ++ deedsOf none (r.moments tl.world)) after
  /-- Time passes. -/
  | passes {deeds : List (Deed B)} {tl : Timeline S B.World} (h : Mingled B start deeds tl)
      (time : Nat) (hle : tl.clock ≤ time) : Mingled B start deeds (tl.moveClock time)
  /-- In which order the background activities stand, and who is queued, does not matter. -/
  | shuffles {deeds : List (Deed B)} {tl : Timeline S B.World} (h : Mingled B start deeds tl)
      (tasks : List (Task S)) (ready : List Nat) (hperm : tasks.Perm tl.tasks) :
      Mingled B start deeds { tl with tasks := tasks, ready := ready }

/-- What a background activity asked. -/
def asked (id : Nat) (deeds : List (Deed B)) : List (Moment S.Query B.World) :=
  deeds.filterMap fun d => if d.who = some id then some d.moment else none

@[simp] theorem asked_append (id : Nat) (deeds more : List (Deed B)) :
    asked id (deeds ++ more) = asked id deeds ++ asked id more := List.filterMap_append

@[simp] theorem asked_own (id : Nat) (moments : List (Moment S.Query B.World)) :
    asked id (deedsOf (some id) moments) = moments := by
  induction moments with
  | nil => rfl
  | cons m rest ih => simp [asked, deedsOf]

theorem asked_other {id : Nat} {who : Option Nat} (h : who ≠ some id)
    (moments : List (Moment S.Query B.World)) : asked id (deedsOf who moments) = [] := by
  induction moments with
  | nil => rfl
  | cons m rest ih => simp [asked, deedsOf, h]

/-! ### What one activity sees of a mingling -/

/-- The activity that a background activity has become stands in the timeline, or it has ended and is
no more. -/
def Stands (tl : Timeline S B.World) (id : Nat) (q : Activity S Unit) : Prop :=
  ⟨id, q⟩ ∈ tl.tasks ∨ q = .done () ∧ ∀ task ∈ tl.tasks, task.id ≠ id

/-- How a background activity stands after some deeds. -/
structure Standing (id : Nat) (p : Activity S Unit) (deeds : List (Deed B))
    (tl : Timeline S B.World) : Prop where
  used : id < tl.nextTask
  walked : ∃ q, Walk B p (asked id deeds) q ∧ Stands tl id q

namespace Standing

variable {tl mid : Timeline S B.World} {id : Nat} {p : Activity S Unit} {deeds : List (Deed B)}
  {rest : List (Task S)} {task : Task S}

/-- Anybody else asks the world, and background activities are added. -/
theorem grows (h : Standing id p deeds tl) (hn : Numbered tl) (hadds : Adds tl mid)
    {who : Option Nat} (hwho : who ≠ some id) (moments : List (Moment S.Query B.World)) :
    Standing id p (deeds ++ deedsOf who moments) mid := by
  obtain ⟨-, hnext, hold⟩ := hn.adds hadds
  obtain ⟨q, hwalk, hstands⟩ := h.walked
  refine ⟨Nat.lt_of_lt_of_le h.used hnext, q, ?_, ?_⟩
  · rw [asked_append, asked_other hwho, List.append_nil]
    exact hwalk
  · rcases hstands with hmem | ⟨hdone, hgone⟩
    · obtain ⟨started, hstarted, -⟩ := hadds
      exact Or.inl (hstarted ▸ List.mem_append_left _ hmem)
    · refine Or.inr ⟨hdone, fun t ht => ?_⟩
      rcases hold t ht with ht | ht
      · exact hgone t ht
      · exact Nat.ne_of_gt (Nat.lt_of_lt_of_le h.used ht)

/-- Another background activity is taken out. -/
theorem without (h : Standing id p deeds tl) (htasks : tl.tasks = task :: rest)
    (hother : task.id ≠ id) : Standing id p deeds { tl with tasks := rest } := by
  obtain ⟨q, hwalk, hstands⟩ := h.walked
  refine ⟨h.used, q, hwalk, ?_⟩
  rw [Stands, htasks] at hstands
  rcases hstands with hmem | ⟨hdone, hgone⟩
  · rcases List.mem_cons.mp hmem with rfl | hmem
    · exact absurd rfl hother
    · exact Or.inl hmem
  · exact Or.inr ⟨hdone, fun t ht => hgone t (List.mem_cons_of_mem _ ht)⟩

/-- Another background activity joins. -/
theorem joined (h : Standing id p deeds tl) (hother : task.id ≠ id) :
    Standing id p deeds { tl with tasks := tl.tasks ++ [task] } := by
  obtain ⟨q, hwalk, hstands⟩ := h.walked
  refine ⟨h.used, q, hwalk, hstands.imp (List.mem_append_left _) ?_⟩
  rintro ⟨hdone, hgone⟩
  refine ⟨hdone, fun t ht => ?_⟩
  rcases List.mem_append.mp ht with ht | ht
  · exact hgone t ht
  · rw [List.mem_singleton.mp ht]
    exact hother

/-- Another background activity has its turn. -/
theorem another {other : Nat} {q q' : Activity S Unit} (h : Standing id p deeds tl)
    (hn : Numbered tl) (htasks : tl.tasks = ⟨other, q⟩ :: rest) (hother : other ≠ id)
    (hadds : Adds { tl with tasks := rest } mid) (moments : List (Moment S.Query B.World)) :
    Standing id p (deeds ++ deedsOf (some other) moments)
      { mid with tasks := mid.tasks ++ [⟨other, q'⟩] } :=
  ((h.without htasks hother).grows (hn.tail htasks).1 hadds
    (fun hc => hother (Option.some.inj hc)) moments).joined hother

/-- What stands under its number is what it has become. -/
theorem walk {q : Activity S Unit} (h : Standing id p deeds tl) (hn : Numbered tl)
    (htasks : tl.tasks = ⟨id, q⟩ :: rest) : Walk B p (asked id deeds) q := by
  obtain ⟨q', hwalk, hstands⟩ := h.walked
  rcases hstands with hmem | ⟨-, hgone⟩
  · rw [htasks] at hmem
    rcases List.mem_cons.mp hmem with heq | hmem
    · obtain rfl : q' = q := congrArg Task.activity heq
      exact hwalk
    · exact absurd rfl ((hn.tail htasks).2 ⟨id, q'⟩ hmem)
  · exact absurd rfl (hgone ⟨id, q⟩ (by rw [htasks]; exact List.mem_cons_self))

/-- It has its own turn. -/
theorem itself {q q' : Activity S Unit} (h : Standing id p deeds tl) (hn : Numbered tl)
    (htasks : tl.tasks = ⟨id, q⟩ :: rest) (hadds : Adds { tl with tasks := rest } mid)
    {moments : List (Moment S.Query B.World)} (hwalk : Walk B q moments q') :
    Standing id p (deeds ++ deedsOf (some id) moments)
      { mid with tasks := mid.tasks ++ [⟨id, q'⟩] } := by
  refine ⟨Nat.lt_of_lt_of_le h.used (hn.rejoin htasks hadds q').1, q', ?_,
    Or.inl (List.mem_append_right _ (List.mem_singleton_self _))⟩
  rw [asked_append, asked_own]
  exact (h.walk hn htasks).trans hwalk

end Standing

namespace Mingled

variable {start tl : Timeline S B.World} {deeds : List (Deed B)}

theorem numbered (h : Mingled B start deeds tl) (hn : Numbered start) : Numbered tl := by
  induction h with
  | start => exact hn
  | asks _ htasks hp ih => exact (ih.rejoin htasks (perform_adds hp) _).2
  | stops _ htasks t ht _ ih => exact (ih.rejoin htasks (adds_of_same rfl rfl) _).2
  | ends _ htasks ih => exact (ih.tail htasks).1
  | outside _ hp ih => exact (ih.adds (perform_adds hp)).1
  | passes _ _ _ ih => exact ⟨ih.distinct, ih.used⟩
  | shuffles _ tasks ready hperm ih => exact ih.perm (hperm.map _) rfl rfl

/-- Whatever the others do, a background activity goes its way. -/
theorem standing (h : Mingled B start deeds tl) (hn : Numbered start) {id : Nat}
    {p : Activity S Unit} (hmem : ⟨id, p⟩ ∈ start.tasks) : Standing id p deeds tl := by
  induction h with
  | start => exact ⟨hn.used _ hmem, p, .stays p, Or.inl hmem⟩
  | @asks deeds tl mid other rest r watched duties next stop a h htasks hp ih =>
    by_cases hid : other = id
    · subst hid
      have hleads := perform_leads hp
      refine ih.itself (h.numbered hn) htasks (perform_adds hp) ?_
      rw [← List.append_nil (r.moments tl.world)]
      exact .asks hleads (.stays _)
    · exact ih.another (h.numbered hn) htasks hid (perform_adds hp) _
  | @stops deeds tl other rest r watched duties next stop h htasks t ht _ ih =>
    have hadds : Adds { tl with tasks := rest } { tl with tasks := rest } := adds_of_same rfl rfl
    rw [← List.append_nil deeds]
    by_cases hid : other = id
    · subst hid
      exact ih.itself (h.numbered hn) htasks hadds (.stops t ht (.stays _))
    · exact ih.another (h.numbered hn) htasks hid hadds []
  | @ends deeds tl other rest h htasks ih =>
    by_cases hid : other = id
    · subst hid
      exact ⟨ih.used, .done (), ih.walk (h.numbered hn) htasks,
        Or.inr ⟨rfl, ((h.numbered hn).tail htasks).2⟩⟩
    · exact ih.without htasks hid
  | outside h hp ih =>
    exact ih.grows (h.numbered hn) (perform_adds hp) (Option.some_ne_none id).symm _
  | passes _ time _ ih => exact ⟨ih.used, ih.walked⟩
  | shuffles _ tasks ready hperm ih =>
    obtain ⟨q, hwalk, hstands⟩ := ih.walked
    refine ⟨ih.used, q, hwalk, ?_⟩
    exact hstands.imp hperm.mem_iff.mpr (And.imp_right fun hgone t ht => hgone t (hperm.mem_iff.mp ht))

/-- Whoever is no more has gone its way to the end. -/
theorem ends_of_gone (h : Mingled B start deeds tl) (hn : Numbered start) {id : Nat}
    {p : Activity S Unit} (hmem : ⟨id, p⟩ ∈ start.tasks) (hgone : ∀ task ∈ tl.tasks, task.id ≠ id) :
    Ends B p (asked id deeds) () := by
  obtain ⟨q, hwalk, hstands | ⟨rfl, -⟩⟩ := (h.standing hn hmem).walked
  · exact absurd rfl (hgone _ hstands)
  · exact hwalk

theorem trans {mid : Timeline S B.World} {more : List (Deed B)} (h : Mingled B start deeds mid)
    (h' : Mingled B mid more tl) : Mingled B start (deeds ++ more) tl := by
  induction h' with
  | start => rwa [List.append_nil]
  | asks _ htasks hp ih =>
    rw [← List.append_assoc]
    exact .asks ih htasks hp
  | stops _ htasks t ht hcancelled ih => exact .stops ih htasks t ht hcancelled
  | ends _ htasks ih => exact .ends ih htasks
  | outside _ hp ih =>
    rw [← List.append_assoc]
    exact .outside ih hp
  | passes _ time hle ih => exact .passes ih time hle
  | shuffles _ tasks ready hperm ih => exact .shuffles ih tasks ready hperm

end Mingled

/-! ### What everybody keeps -/

/-- The world after the answer. -/
def Moment.after (m : Moment S.Query B.World) : B.World := (B.answer m.query m.world).2.1

/-- Worlds that are found one after another, each related to all that were left before. -/
structure Aged (R : B.World → B.World → Prop) (first : B.World)
    (record : List (Moment S.Query B.World)) : Prop where
  first : ∀ m ∈ record, R first m.world
  order : record.Pairwise fun m m' => R m.after m'.world

/-- Worlds only age in a way that every answer keeps. -/
theorem Mingled.ages {start tl : Timeline S B.World} {deeds : List (Deed B)}
    (h : Mingled B start deeds tl) {R : B.World → B.World → Prop} (hrefl : ∀ w, R w w)
    (htrans : ∀ u v w, R u v → R v w → R u w) (hanswer : ∀ q w, R w (B.answer q w).2.1) :
    R start.world tl.world ∧ Aged R start.world (deeds.map (·.moment)) ∧
      ∀ d ∈ deeds, R d.moment.after tl.world := by
  have hstep : ∀ {deeds : List (Deed B)} {tl after : Timeline S B.World} {r : Request S}
      {a : r.Answer} (who : Option Nat), r.Leads B tl.world a after.world →
      (R start.world tl.world ∧ Aged R start.world (deeds.map (·.moment)) ∧
        ∀ d ∈ deeds, R d.moment.after tl.world) →
      R start.world after.world ∧
        Aged R start.world ((deeds ++ deedsOf who (r.moments tl.world)).map (·.moment)) ∧
        ∀ d ∈ deeds ++ deedsOf who (r.moments tl.world), R d.moment.after after.world := by
    rintro deeds tl after r a who hleads ⟨hnow, hrecord, hsince⟩
    cases r with
    | query q =>
      obtain ⟨-, hworld⟩ := hleads
      have hage : R tl.world after.world := hworld ▸ hanswer q tl.world
      refine ⟨htrans _ _ _ hnow hage, ⟨?_, ?_⟩, ?_⟩
      · intro m hm
        rw [List.map_append] at hm
        rcases List.mem_append.mp hm with hm | hm
        · exact hrecord.first m hm
        · rw [List.mem_singleton.mp hm]
          exact hnow
      · rw [List.map_append]
        refine List.pairwise_append.mpr ⟨hrecord.order, List.pairwise_singleton _ _, ?_⟩
        intro m hm m' hm'
        obtain ⟨d, hd, rfl⟩ := List.mem_map.mp hm
        rw [List.mem_singleton.mp hm']
        exact hsince d hd
      · intro d hd
        rcases List.mem_append.mp hd with hd | hd
        · exact htrans _ _ _ (hsince d hd) hage
        · rw [List.mem_singleton.mp hd]
          exact hworld ▸ hrefl _
    | _ =>
      have hworld : after.world = tl.world := hleads
      simp only [Request.moments, deedsOf, List.map_nil, List.append_nil, hworld]
      exact ⟨hnow, hrecord, hsince⟩
  induction h with
  | start => exact ⟨hrefl _, ⟨nofun, List.Pairwise.nil⟩, nofun⟩
  | @asks _ tl mid id rest r _ _ _ _ a _ _ hp ih =>
    have hleads := perform_leads hp
    exact hstep (some id) hleads ih
  | outside _ hp ih => exact hstep none (perform_leads hp) ih
  | _ => assumption

theorem asked_sublist (id : Nat) (deeds : List (Deed B)) :
    (asked id deeds).Sublist (deeds.map (·.moment)) := by
  induction deeds with
  | nil => exact .slnil
  | cons d rest ih =>
    unfold asked at ih ⊢
    rw [List.filterMap_cons, List.map_cons]
    by_cases hwho : d.who = some id
    · rw [if_pos hwho]
      exact ih.cons_cons _
    · rw [if_neg hwho]
      exact ih.cons _

/-- So does what a background activity finds of them. -/
theorem Aged.asked {R : B.World → B.World → Prop} {first : B.World} {deeds : List (Deed B)}
    (h : Aged R first (deeds.map (·.moment))) (id : Nat) : Aged R first (asked id deeds) :=
  ⟨fun m hm => h.first m ((asked_sublist id deeds).subset hm), h.order.sublist (asked_sublist id deeds)⟩

/-! ### Nobody is kept from the end -/

/-- The request waits for nothing, or for a time. -/
def Request.isPatient (r : Request S) : Prop := r.waits = true → ∃ time, r = .sleepUntil time

/-- An activity that waits for nothing but time can come to an end, whatever the worlds are that it finds. -/
theorem exists_ends (w : B.World) {p : Activity S α} (hp : Asks Request.isPatient p) :
    ∃ record a, Ends B p record a := by
  induction p with
  | done a => exact ⟨[], a, .stays _⟩
  | ask r watched duties next stop ihn ihs =>
    have hanswer : ∃ a v, r.Leads B w a v := by
      cases r with
      | query q => exact ⟨_, _, rfl, rfl⟩
      | forever => exact absurd (hp.1.1 rfl) nofun
      | take inbox => exact absurd (hp.1.1 rfl) nofun
      | clock => exact ⟨(0 : Nat), w, rfl⟩
      | newToken parent => exact ⟨(0 : Nat), w, rfl⟩
      | newInbox => exact ⟨(0 : Nat), w, rfl⟩
      | isCancelled t => exact ⟨true, w, rfl⟩
      | post inbox m => exact ⟨true, w, rfl⟩
      | _ => exact ⟨(), w, rfl⟩
    obtain ⟨a, v, hleads⟩ := hanswer
    obtain ⟨record, b, hends⟩ := ihn a (hp.2.1 a)
    exact ⟨_, b, .asks hleads hends⟩

namespace Mingled

variable {start tl : Timeline S B.World} {deeds : List (Deed B)}

/-- A background activity that waits for nothing but time can go on to its end by itself. -/
theorem exists_end (h : Mingled B start deeds tl) (hn : Numbered tl) {id : Nat}
    {p : Activity S Unit} (hmem : ⟨id, p⟩ ∈ tl.tasks) (hp : Asks Request.isPatient p) :
    ∃ more after, (∀ d ∈ more, d.who = some id) ∧ Mingled B start (deeds ++ more) after ∧
      ∀ task ∈ after.tasks, task.id ≠ id := by
  induction p generalizing deeds tl with
  | done a =>
    obtain ⟨before, rest, hsplit⟩ := List.mem_iff_append.mp hmem
    have hperm : (⟨id, .done ()⟩ :: (before ++ rest)).Perm tl.tasks := hsplit ▸ List.perm_middle.symm
    have hnfirst : Numbered { tl with tasks := ⟨id, .done ()⟩ :: (before ++ rest) } :=
      hn.perm (hperm.map _) rfl rfl
    refine ⟨[], { tl with tasks := before ++ rest }, nofun, ?_, (hnfirst.tail rfl).2⟩
    rw [List.append_nil]
    exact (h.shuffles _ tl.ready hperm).ends rfl
  | ask r watched duties next stop ihn ihs =>
    obtain ⟨before, rest, hsplit⟩ := List.mem_iff_append.mp hmem
    have hperm : (⟨id, .ask r watched duties next stop⟩ :: (before ++ rest)).Perm tl.tasks :=
      hsplit ▸ List.perm_middle.symm
    have hnfirst : Numbered { tl with
        tasks := ⟨id, .ask r watched duties next stop⟩ :: (before ++ rest) } :=
      hn.perm (hperm.map _) rfl rfl
    have hfirst := h.shuffles _ tl.ready hperm
    -- Its request is answered, now or when its time has come.
    have hgo : ∀ {now : Timeline S B.World} {a : r.Answer} {mid : Timeline S B.World},
        Mingled B start deeds now → Numbered now →
        now.tasks = ⟨id, .ask r watched duties next stop⟩ :: (before ++ rest) →
        Timeline.perform B { now with tasks := before ++ rest } r = some (a, mid) →
        ∃ more after, (∀ d ∈ more, d.who = some id) ∧ Mingled B start (deeds ++ more) after ∧
          ∀ task ∈ after.tasks, task.id ≠ id := by
      intro now a mid hnow hnnow htasks hanswer
      have hstep := hnow.asks htasks hanswer
      obtain ⟨more, after, hmore, hafter, hgone⟩ := ihn a hstep
        (hnnow.rejoin htasks (perform_adds hanswer) (next a)).2
        (List.mem_append_right _ (List.mem_singleton_self _)) (hp.2.1 a)
      refine ⟨deedsOf (some id) (r.moments now.world) ++ more, after, ?_, ?_, hgone⟩
      · intro d hd
        rcases List.mem_append.mp hd with hd | hd
        · obtain ⟨m, -, rfl⟩ := List.mem_map.mp hd
          rfl
        · exact hmore d hd
      · rwa [← List.append_assoc]
    rcases hanswer : Timeline.perform B { tl with tasks := before ++ rest } r with _ | ⟨a, mid⟩
    · obtain ⟨time, rfl⟩ := hp.1.1 (waits_of_perform hanswer)
      have hlate := hfirst.passes (max tl.clock time) (Nat.le_max_left _ _)
      have hcome : time ≤ max tl.clock time := Nat.le_max_right _ _
      exact hgo (a := ()) hlate ⟨hnfirst.distinct, hnfirst.used⟩ rfl (if_pos hcome)
    · exact hgo hfirst hnfirst rfl hanswer

/-- However far it has come, and whatever the others have done. -/
theorem exists_ending (h : Mingled B start deeds tl) (hn : Numbered start) {id : Nat}
    {p : Activity S Unit} (hmem : ⟨id, p⟩ ∈ start.tasks) (hp : Asks Request.isPatient p) :
    ∃ more after, (∀ d ∈ more, d.who = some id) ∧ Mingled B start (deeds ++ more) after ∧
      ∀ task ∈ after.tasks, task.id ≠ id := by
  obtain ⟨q, hwalk, hstands | ⟨-, hgone⟩⟩ := (h.standing hn hmem).walked
  · exact h.exists_end (h.numbered hn) hstands (hwalk.asks_of_asks hp)
  · refine ⟨[], tl, nofun, ?_, hgone⟩
    rwa [List.append_nil]

end Mingled

/-! ### Turns are minglings -/

namespace Timeline

/-- What an activity asks the world until it ends or has to wait. -/
def questions (B : Backend S) : Activity S α → Timeline S B.World → List (Moment S.Query B.World)
  | .done _, _ => []
  | .ask r _ _ next _, tl =>
    match perform B tl r with
    | some (a, after) => r.moments tl.world ++ questions B (next a) after
    | none => []

end Timeline

namespace Mingled

variable {start tl : Timeline S B.World} {deeds : List (Deed B)}

/-- Somebody else goes on as far as possible. -/
theorem advance_outside (h : Mingled B start deeds tl) (p : Activity S α) :
    Mingled B start (deeds ++ deedsOf none (tl.questions B p)) (advance B p tl).2 := by
  induction p generalizing deeds tl with
  | done a => rwa [Timeline.questions, deedsOf, List.map_nil, List.append_nil]
  | ask r watched duties next stop ihn ihs =>
    rcases hp : Timeline.perform B tl r with _ | ⟨a, mid⟩
    · simp only [advance, Timeline.questions, hp, deedsOf, List.map_nil, List.append_nil]
      exact h
    · simp only [advance, Timeline.questions, hp, deedsOf, List.map_append, ← List.append_assoc]
      exact ihn a (h.outside hp)

/-- A background activity goes on as far as possible. -/
theorem advance_task (tl : Timeline S B.World) {id : Nat} {p : Activity S Unit}
    (h : Mingled B start deeds { tl with tasks := tl.tasks ++ [⟨id, p⟩] }) :
    Mingled B start (deeds ++ deedsOf (some id) (tl.questions B p)) { (advance B p tl).2 with
      tasks := (advance B p tl).2.tasks ++ [⟨id, (advance B p tl).1⟩] } := by
  induction p generalizing deeds tl with
  | done a => rwa [Timeline.questions, deedsOf, List.map_nil, List.append_nil]
  | ask r watched duties next stop ihn ihs =>
    rcases hp : Timeline.perform B tl r with _ | ⟨a, mid⟩
    · simp only [advance, Timeline.questions, hp, deedsOf, List.map_nil, List.append_nil]
      exact h
    · simp only [advance, Timeline.questions, hp, deedsOf, List.map_append, ← List.append_assoc]
      have hfirst := h.shuffles (⟨id, .ask r watched duties next stop⟩ :: tl.tasks) tl.ready
        (List.perm_append_singleton _ _).symm
      exact ihn a _ (hfirst.asks rfl hp)

/-- A background activity has its turn. -/
theorem turn (h : Mingled B start deeds tl) (hn : Numbered tl) {id : Nat} {task : Task S}
    (hfind : tl.tasks.find? (·.id == id) = some task) :
    Mingled B start
      (deeds ++ deedsOf (some id) ((tl.besides id).questions B (onward (tl.besides id) task.activity)))
      (runTask B tl id) := by
  obtain ⟨rfl, hperm⟩ := hn.perm_of_find hfind
  have hlast := h.shuffles ((tl.besides task.id).tasks ++ [task]) tl.ready
    (List.perm_append_comm.trans hperm)
  have honward : Mingled B start deeds { tl with
      tasks := (tl.besides task.id).tasks ++ [⟨task.id, onward (tl.besides task.id) task.activity⟩] } := by
    obtain ⟨id, p⟩ := task
    cases p with
    | done a => exact hlast
    | ask r watched duties next stop =>
      rcases hstop : watched.find? (tl.besides id).isCancelled with _ | t
      · rw [Timeline.onward_of_find_none hstop]
        exact hlast
      · rw [Timeline.onward_interrupted hstop]
        have hfirst := h.shuffles (⟨id, .ask r watched duties next stop⟩ :: (tl.besides id).tasks)
          tl.ready hperm
        exact hfirst.stops rfl t (List.mem_of_find?_eq_some hstop) (List.find?_some hstop)
  have hgone := advance_task (tl.besides task.id) honward
  have hresume : resume B task.activity (tl.besides task.id) =
      ((advance B (onward (tl.besides task.id) task.activity) (tl.besides task.id)).1,
        (advance B (onward (tl.besides task.id) task.activity) (tl.besides task.id)).2) :=
    Timeline.resume_eq _ _
  obtain ⟨hdone, hrests⟩ := runTask_of_find hfind hresume
  revert hgone hdone hrests
  generalize advance B (onward (tl.besides task.id) task.activity) (tl.besides task.id) = next
  obtain ⟨p, after⟩ := next
  intro hgone hdone hrests
  cases p with
  | done a =>
    rw [hdone rfl]
    have hfirst := hgone.shuffles (⟨task.id, .done ()⟩ :: after.tasks) after.ready
      (List.perm_append_singleton _ _).symm
    exact hfirst.ends rfl
  | ask r watched duties next stop =>
    rw [hrests nofun]
    exact hgone

end Mingled

/-- Every step of a crowd is a mingling, of the foreground and the background. -/
theorem exists_mingled_step {ι : Type} {program : ι → Activity S α} {c c' : Crowd B ι α}
    (hstep : Crowd.Step B program c c') (hn : Numbered c.timeline) :
    ∃ deeds, Mingled B c.timeline deeds c'.timeline := by
  have hplace : ∀ (c : Crowd B ι α) (who : ι) (began : Nat) (next : Activity S α × Timeline S B.World),
      (c.place who began next).timeline = next.2 := by
    rintro c who began ⟨p, tl⟩
    cases p <;> rfl
  cases hstep with
  | task id hready =>
    have hstart : Mingled B c.timeline [] c.timeline := .start
    have hqueue := hstart.shuffles c.timeline.tasks (c.timeline.ready.erase id) (.refl _)
    rcases hfind : c.timeline.tasks.find? (·.id == id) with _ | task
    · refine ⟨[], ?_⟩
      have hnone : (Timeline.tasks { c.timeline with ready := c.timeline.ready.erase id }).find?
          (·.id == id) = none := hfind
      have hsame := Timeline.runTask_of_find_none (B := B) hnone
      simp only [hsame]
      exact hqueue
    · exact ⟨_, hqueue.turn ⟨hn.distinct, hn.used⟩ hfind⟩
  | enter who =>
    rw [hplace]
    exact ⟨_, Mingled.start.advance_outside (program who)⟩
  | go before after m hmem hresume =>
    rw [hplace, Timeline.resume_eq]
    exact ⟨_, Mingled.start.advance_outside _⟩
  | wait time hready hstuck hle htasks hrunning => exact ⟨[], Mingled.start.passes time hle⟩

/-- Whatever a crowd comes to, a mingling does. -/
theorem exists_mingled_steps {ι : Type} {program : ι → Activity S α} {c c' : Crowd B ι α}
    (hsteps : Relation.ReflTransGen (Crowd.Step B program) c c') (hn : Numbered c.timeline) :
    ∃ deeds, Mingled B c.timeline deeds c'.timeline := by
  induction hsteps with
  | refl => exact ⟨[], .start⟩
  | tail _ hstep ih =>
    obtain ⟨deeds, hdeeds⟩ := ih
    obtain ⟨more, hmore⟩ := exists_mingled_step hstep (hdeeds.numbered hn)
    exact ⟨deeds ++ more, hdeeds.trans hmore⟩

end Wayfind.Activity
