/-
What was asked, and in which order.

While an activity goes on its requests are answered, one after another.  An `Exchange` is a
request with its answer, and the `trail` of an activity are its exchanges until it ends or has
to wait; `Comes` follows it a part of the way.

A `Tale` is told of one foreground activity: from its start on, with the background going on
beside it in any order, and all exchanges so far.  An inbox that nobody has closed holds what was
put into it and not taken out again (`Tale.sent_eq`).
-/
import Wayfind.Proofs.Activity.Dropping
import Wayfind.Proofs.Activity.Lull

namespace Wayfind.Activity

open Timeline (advance resume runTask moveClock canResume wakeTime)
open Relation (ReflTransGen)

variable {S : Signature} {B : Backend S} {α β : Type}

/-! ### Deeds -/

/-- A request and its answer. -/
structure Exchange (S : Signature) where
  request : Request S
  answer : request.Answer

namespace Exchange

/-- What was put into an inbox. -/
def sent (k : Inbox) : Exchange S → List S.Message
  | ⟨.post inbox m, accepted⟩ => if inbox == k && accepted then [m] else []
  | _ => []

/-- What was taken out of an inbox. -/
def taken (k : Inbox) : Exchange S → List S.Message
  | ⟨.take inbox, m⟩ => if inbox = k then [m] else []
  | _ => []

/-- What was to be put into an inbox, accepted or not. -/
def offered : Exchange S → List S.Message
  | ⟨.post _ m, _⟩ => [m]
  | _ => []

/-- The inbox was closed. -/
def Closes (k : Inbox) : Exchange S → Prop
  | ⟨.close inbox, _⟩ => inbox = k
  | _ => False

end Exchange

/-- All that was put into an inbox, in order. -/
def sentTo (k : Inbox) (log : List (Exchange S)) : List S.Message := log.flatMap (Exchange.sent k)

/-- All that was taken out of an inbox, in order. -/
def takenFrom (k : Inbox) (log : List (Exchange S)) : List S.Message := log.flatMap (Exchange.taken k)

/-- All that somebody wanted to put into an inbox. -/
def offeredIn (log : List (Exchange S)) : List S.Message := log.flatMap Exchange.offered

/-- The inbox was closed on the way. -/
def Closed (k : Inbox) (log : List (Exchange S)) : Prop := ∃ x ∈ log, x.Closes k

/-- Nobody read from the inbox, or closed it. -/
def Aloof (k : Inbox) (log : List (Exchange S)) : Prop := takenFrom k log = [] ∧ ¬ Closed k log

section Log

variable (k : Inbox) (log more : List (Exchange S)) (x : Exchange S)

@[simp] theorem sentTo_cons : sentTo k (x :: log) = x.sent k ++ sentTo k log := List.flatMap_cons

@[simp] theorem takenFrom_cons : takenFrom k (x :: log) = x.taken k ++ takenFrom k log :=
  List.flatMap_cons

@[simp] theorem offeredIn_cons : offeredIn (x :: log) = x.offered ++ offeredIn log :=
  List.flatMap_cons

@[simp] theorem sentTo_append : sentTo k (log ++ more) = sentTo k log ++ sentTo k more :=
  List.flatMap_append

@[simp] theorem takenFrom_append : takenFrom k (log ++ more) = takenFrom k log ++ takenFrom k more :=
  List.flatMap_append

@[simp] theorem offeredIn_append : offeredIn (log ++ more) = offeredIn log ++ offeredIn more :=
  List.flatMap_append

theorem not_closed_nil : ¬ Closed k ([] : List (Exchange S)) := fun ⟨_, hd, _⟩ => List.not_mem_nil hd

theorem aloof_nil : Aloof k ([] : List (Exchange S)) := ⟨rfl, not_closed_nil k⟩

@[simp] theorem closed_cons : Closed k (x :: log) ↔ x.Closes k ∨ Closed k log := by
  simp only [Closed, List.mem_cons, or_and_right, exists_or, exists_eq_left]

@[simp] theorem closed_append : Closed k (log ++ more) ↔ Closed k log ∨ Closed k more := by
  simp only [Closed, List.mem_append, or_and_right, exists_or]

theorem aloof_cons : Aloof k (x :: log) ↔ (x.taken k = [] ∧ ¬ x.Closes k) ∧ Aloof k log := by
  simp only [Aloof, takenFrom_cons, List.append_eq_nil_iff, closed_cons, not_or]
  exact and_and_and_comm

end Log

/-! ### Trails -/

namespace Timeline

/-- What an activity does until it ends or has to wait. -/
def trail (B : Backend S) : Activity S α → Timeline S B.World → List (Exchange S)
  | .done _, _ => []
  | .ask r _ _ next _, tl =>
    match perform B tl r with
    | some (a, after) => ⟨r, a⟩ :: trail B (next a) after
    | none => []

/-- How a suspended activity goes on: as it would, or interrupted by a token it watches. -/
def onward {World : Type} (tl : Timeline S World) : Activity S α → Activity S α
  | .done a => .done a
  | .ask r watched duties next stop =>
    match h : watched.find? tl.isCancelled with
    | some t => stop t (List.mem_of_find?_eq_some h)
    | none => .ask r watched duties next stop

/-- The timeline beside the background activity with a number. -/
def besides {World : Type} (tl : Timeline S World) (id : Nat) : Timeline S World :=
  { tl with tasks := tl.tasks.filter (·.id != id) }

/-- What the background activity with a number does in its turn. -/
def taskTrail (B : Backend S) (tl : Timeline S B.World) (id : Nat) : List (Exchange S) :=
  match tl.tasks.find? (·.id == id) with
  | none => []
  | some task => trail B (onward (tl.besides id) task.activity) (tl.besides id)

/-- What is done for an activity that is dropped. -/
def dropTrail (B : Backend S) (p : Activity S α) (tl : Timeline S B.World) : List (Exchange S) :=
  match p with
  | .done _ => []
  | .ask _ _ duties _ _ => trail B (fulfilThen (.done ()) duties) tl

/-- A token that is cancelled interrupts whoever watches it. -/
theorem onward_interrupted {World : Type} {tl : Timeline S World} {r : Request S}
    {watched : List Token} {duties : List (Duty S)} {next : r.Answer → Activity S α}
    {stop : (t : Token) → t ∈ watched → Activity S α} {t : Token}
    (ht : watched.find? tl.isCancelled = some t) :
    onward tl (.ask r watched duties next stop) = stop t (List.mem_of_find?_eq_some ht) := by
  simp only [onward]
  split
  · rename_i t' ht'
    obtain rfl : t' = t := Option.some.inj (ht'.symm.trans ht)
    rfl
  · rename_i hnone
    exact absurd (hnone.symm.trans ht) nofun

theorem onward_of_find_none {World : Type} {tl : Timeline S World} {r : Request S}
    {watched : List Token} {duties : List (Duty S)} {next : r.Answer → Activity S α}
    {stop : (t : Token) → t ∈ watched → Activity S α}
    (hnone : watched.find? tl.isCancelled = none) :
    onward tl (.ask r watched duties next stop) = .ask r watched duties next stop := by
  simp only [onward]
  split
  · rename_i t ht
    exact absurd (ht.symm.trans hnone) nofun
  · rfl

theorem resume_eq (p : Activity S α) (tl : Timeline S B.World) :
    resume B p tl = advance B (onward tl p) tl := by
  cases p with
  | done a => rfl
  | ask r watched duties next stop =>
    simp only [resume]
    split
    · rename_i t ht
      rw [onward_interrupted ht]
    · rename_i hnone
      rw [onward_of_find_none hnone]

/-- Whoever watches nothing is not interrupted. -/
theorem onward_of_watched {World : Type} (tl : Timeline S World) {p : Activity S α}
    (hw : watched p = []) : onward tl p = p := by
  cases p with
  | done a => rfl
  | ask r ws duties next stop =>
    obtain rfl : ws = [] := hw
    rfl

/-- Whoever has to wait does nothing. -/
theorem stuck {r : Request S} {watched : List Token} {duties : List (Duty S)}
    {next : r.Answer → Activity S α} {stop : (t : Token) → t ∈ watched → Activity S α}
    {tl : Timeline S B.World} (hp : perform B tl r = none) :
    advance B (.ask r watched duties next stop) tl = (.ask r watched duties next stop, tl) ∧
      trail B (.ask r watched duties next stop) tl = [] := by
  simp only [advance, trail, hp, and_self]

/-- In a turn a background activity goes on, if there is one with the number. -/
theorem turn (tl : Timeline S B.World) (id : Nat) :
    (taskTrail B tl id = [] ∧ runTask B tl id = tl) ∨
      ∃ task, tl.tasks.find? (·.id == id) = some task ∧
        taskTrail B tl id = trail B (onward (tl.besides id) task.activity) (tl.besides id) ∧
        Rejoined (advance B (onward (tl.besides id) task.activity) (tl.besides id)).1
          (advance B (onward (tl.besides id) task.activity) (tl.besides id)).2 (runTask B tl id) := by
  rcases hfind : tl.tasks.find? (·.id == id) with _ | task
  · left
    simp only [taskTrail, hfind, runTask_of_find_none hfind, and_self]
  · refine Or.inr ⟨task, hfind, by simp only [taskTrail, hfind], ?_⟩
    rw [← resume_eq]
    exact runTask_rejoined hfind Prod.mk.eta.symm

end Timeline

open Timeline (trail onward taskTrail dropTrail)

/-- After these exchanges the activity goes on as another one. -/
inductive Comes (B : Backend S) : Activity S α → Timeline S B.World → List (Exchange S) → Activity S α →
    Timeline S B.World → Prop
  | stays (p : Activity S α) (tl : Timeline S B.World) : Comes B p tl [] p tl
  | asks {r : Request S} {watched : List Token} {duties : List (Duty S)}
      {next : r.Answer → Activity S α} {stop : (t : Token) → t ∈ watched → Activity S α}
      {q : Activity S α} {a : r.Answer} {tl mid after : Timeline S B.World} {said : List (Exchange S)}
      (hp : Timeline.perform B tl r = some (a, mid)) (h : Comes B (next a) mid said q after) :
      Comes B (.ask r watched duties next stop) tl (⟨r, a⟩ :: said) q after

namespace Comes

variable {p q : Activity S α} {tl mid after : Timeline S B.World} {said more : List (Exchange S)}

theorem trans {q' : Activity S α} (h : Comes B p tl said q mid) (h' : Comes B q mid more q' after) :
    Comes B p tl (said ++ more) q' after := by
  induction h with
  | stays p tl => exact h'
  | asks hp _ ih => exact .asks hp (ih h')

theorem bind (h : Comes B p tl said q after) (f : α → Activity S β) :
    Comes B (Activity.bind p f) tl said (Activity.bind q f) after := by
  induction h with
  | stays p tl => exact .stays _ _
  | asks hp _ ih => exact .asks hp ih

theorem protect (h : Comes B p tl said q after) (duties : List (Duty S)) :
    Comes B (protect duties p) tl said (protect duties q) after := by
  induction h with
  | stays p tl => exact .stays _ _
  | asks hp _ ih => exact .asks hp ih

theorem answered {r : Request S} {a : r.Answer} {f : r.Answer → Activity S β}
    {q : Activity S β} (hp : Timeline.perform B tl r = some (a, mid))
    (h : Comes B (f a) mid said q after) :
    Comes B (Activity.bind (Activity.perform r) f) tl (⟨r, a⟩ :: said) q after := by
  rw [bind_perform]
  exact .asks hp h

theorem advance_eq (h : Comes B p tl said q after) : advance B p tl = advance B q after := by
  induction h with
  | stays p tl => rfl
  | asks hp _ ih =>
    simp only [advance, hp]
    exact ih

theorem trail_eq (h : Comes B p tl said q after) : trail B p tl = said ++ trail B q after := by
  induction h with
  | stays p tl => rfl
  | asks hp _ ih =>
    simp only [trail, hp, ih]
    rfl

end Comes

/-! ### What lies in an inbox -/

section Mail

variable {k : Inbox} {tl after : Timeline S B.World}

theorem messages_of_inboxes {World World' : Type} {tl : Timeline S World} {after : Timeline S World'}
    (h : after.inboxes = tl.inboxes) (k : Inbox) : after.messages k = tl.messages k := by
  unfold Timeline.messages
  rw [h]

/-- A message that is accepted comes last. -/
theorem messages_post {World : Type} (tl : Timeline S World) (inbox : Inbox) (m : S.Message)
    (k : Inbox) : (tl.post inbox m).2.messages k =
      tl.messages k ++ if inbox == k && (tl.post inbox m).1 then [m] else [] := by
  unfold Timeline.post
  by_cases hopen : tl.inboxes[inbox]?.any (!·.closed) = true
  · rw [if_pos hopen]
    have hwoken : ∀ posted : Timeline S World,
        (posted.wake (posted.tasksWhere (Timeline.takesFrom inbox))).messages k =
          posted.messages k := fun _ => rfl
    dsimp only
    rw [hwoken, Timeline.messages_modifyInbox]
    by_cases h : inbox = k
    · subst h
      rcases hs : tl.inboxes[inbox]? with _ | s
      · rw [hs] at hopen
        exact absurd hopen Bool.false_ne_true
      · simp [Timeline.messages, hs]
    · simp [h, Ne.symm h]
  · rw [if_neg hopen]
    simp

/-- What lay in an inbox and what was put into it is what was taken out and what lies in it now. -/
theorem perform_mail {r : Request S} {a : r.Answer} (hp : Timeline.perform B tl r = some (a, after))
    (hopen : ¬ Exchange.Closes k ⟨r, a⟩) :
    tl.messages k ++ Exchange.sent k ⟨r, a⟩ = Exchange.taken k ⟨r, a⟩ ++ after.messages k := by
  have hsame : after.inboxes = tl.inboxes → tl.messages k ++ [] = [] ++ after.messages k := fun h => by
    rw [List.append_nil, List.nil_append, messages_of_inboxes h]
  cases Timeline.performs hp with
  | query q => exact hsame (Timeline.forkAll_inboxes _ _)
  | cancel t => exact hsame (Timeline.cancel_sameBut tl t).inboxes
  | newInbox =>
    show tl.messages k ++ [] = [] ++ _
    rw [List.append_nil, List.nil_append]
    simp only [Timeline.messages, Array.getElem?_push]
    split
    · rename_i hk
      rw [hk]
      simp
    · rfl
  | post inbox m => exact (messages_post tl inbox m k).symm
  | @take inbox m rest hm =>
    show tl.messages k ++ [] = (if inbox = k then [m] else []) ++ _
    rw [Timeline.messages_take hm, List.append_nil]
    by_cases h : inbox = k
    · rw [if_pos h, if_pos h.symm, ← h, hm]
      rfl
    · rw [if_neg h, if_neg (Ne.symm h)]
      rfl
  | close inbox =>
    have hclose : (tl.close B inbox).messages k = tl.messages k :=
      (messages_of_inboxes (Timeline.forkAll_inboxes _ _) k).trans
        ((Timeline.messages_modifyInbox tl inbox k _).trans (if_neg (Ne.symm hopen)))
    show tl.messages k ++ [] = [] ++ _
    rw [List.append_nil, List.nil_append, hclose]
  | _ => exact hsame rfl

theorem sent_subset_offered (k : Inbox) (x : Exchange S) : x.sent k ⊆ x.offered := by
  obtain ⟨r, a⟩ := x
  cases r with
  | post inbox m =>
    simp only [Exchange.sent, Exchange.offered]
    split
    · exact List.Subset.refl _
    · exact List.nil_subset _
  | _ => exact List.nil_subset _

/-- What lies in an inbox lay there before, or somebody wanted to put it there. -/
theorem mem_messages_of_perform {r : Request S} {a : r.Answer}
    (hp : Timeline.perform B tl r = some (a, after)) {m : S.Message} (hm : m ∈ after.messages k) :
    m ∈ tl.messages k ∨ m ∈ Exchange.offered ⟨r, a⟩ := by
  by_cases hclose : Exchange.Closes k ⟨r, a⟩
  · cases r with
    | close inbox =>
      obtain rfl : inbox = k := hclose
      obtain ⟨-, rfl⟩ := Prod.mk.inj (Option.some.inj hp)
      have hempty : (tl.close B inbox).messages inbox = [] := by
        refine (messages_of_inboxes (Timeline.forkAll_inboxes _ _) inbox).trans
          ((Timeline.messages_modifyInbox tl inbox inbox _).trans ?_)
        rw [if_pos rfl]
        cases tl.inboxes[inbox]? <;> rfl
      exact absurd (hempty ▸ hm) List.not_mem_nil
    | _ => exact absurd hclose id
  · have hall : m ∈ tl.messages k ++ Exchange.sent k ⟨r, a⟩ :=
      perform_mail hp hclose ▸ List.mem_append_right _ hm
    exact (List.mem_append.mp hall).imp_right fun h => sent_subset_offered k _ h

theorem advance_mail (p : Activity S α) (tl : Timeline S B.World) (hopen : ¬ Closed k (trail B p tl)) :
    tl.messages k ++ sentTo k (trail B p tl) =
      takenFrom k (trail B p tl) ++ (advance B p tl).2.messages k := by
  induction p generalizing tl with
  | done a => exact List.append_nil _
  | ask r ws duties next stop ihn ihs =>
    rcases hp : Timeline.perform B tl r with _ | ⟨a, after⟩
    · simp only [trail, advance, hp]
      exact List.append_nil _
    · simp only [trail, advance, hp, closed_cons, not_or, sentTo_cons, takenFrom_cons] at hopen ⊢
      rw [← List.append_assoc, perform_mail hp hopen.1, List.append_assoc, ihn a after hopen.2,
        List.append_assoc]

theorem runTask_mail (tl : Timeline S B.World) (id : Nat) (hopen : ¬ Closed k (taskTrail B tl id)) :
    tl.messages k ++ sentTo k (taskTrail B tl id) =
      takenFrom k (taskTrail B tl id) ++ (runTask B tl id).messages k := by
  rcases Timeline.turn tl id with ⟨htrail, hsame⟩ | ⟨task, -, htrail, hrejoined⟩
  · rw [htrail, hsame]
    exact List.append_nil _
  · rw [htrail] at hopen ⊢
    rw [messages_of_inboxes hrejoined.inboxes]
    exact advance_mail (onward (tl.besides id) task.activity) (tl.besides id) hopen

end Mail

/-! ### Tales -/

/-- What has become of one foreground activity, and what has been done since its start: by it, by
the background in any order, and for it when it was dropped. -/
inductive Tale (B : Backend S) (program : Activity S α) (start : Timeline S B.World) :
    Crowd B Unit α → List (Exchange S) → Prop
  | enters : Tale B program start ((Crowd.init start).place () start.clock (advance B program start))
      (trail B program start)
  | task {c : Crowd B Unit α} {log : List (Exchange S)} (h : Tale B program start c log) (id : Nat)
      (hready : id ∈ c.timeline.ready) :
      Tale B program start { c with
          timeline := runTask B { c.timeline with ready := c.timeline.ready.erase id } id }
        (log ++ taskTrail B { c.timeline with ready := c.timeline.ready.erase id } id)
  | go {c : Crowd B Unit α} {log : List (Exchange S)} (h : Tale B program start c log)
      (m : Member Unit S α) (hmem : c.running = [m])
      (hresume : canResume c.timeline m.activity = true) :
      Tale B program start (({ c with running := [] } : Crowd B Unit α).place m.who m.began
          (resume B m.activity c.timeline))
        (log ++ trail B (onward c.timeline m.activity) c.timeline)
  | wait {c : Crowd B Unit α} {log : List (Exchange S)} (h : Tale B program start c log) (time : Nat)
      (hready : c.timeline.ready = [])
      (hstuck : ∀ m ∈ c.running, canResume c.timeline m.activity = false)
      (hle : c.timeline.clock ≤ time)
      (htasks : ∀ task ∈ c.timeline.tasks, ∀ wake ∈ wakeTime task.activity, time ≤ wake)
      (hrunning : ∀ m ∈ c.running, ∀ wake ∈ wakeTime m.activity, time ≤ wake) :
      Tale B program start { c with timeline := c.timeline.moveClock time } log
  | drop {c : Crowd B Unit α} {log : List (Exchange S)} (h : Tale B program start c log)
      (m : Member Unit S α) (hmem : c.running = [m]) :
      Tale B program start (c.without [] [] m) (log ++ dropTrail B m.activity c.timeline)

namespace Tale

variable {program : Activity S α} {start : Timeline S B.World} {c : Crowd B Unit α}
  {log : List (Exchange S)}

/-- A tale is told of a crowd. -/
theorem turns (h : Tale B program start c log) :
    ReflTransGen (Crowd.Turn B fun _ => program) (.init start) c := by
  induction h with
  | enters => exact .single (.step (.enter ()))
  | task _ id hready ih => exact ih.tail (.step (.task id hready))
  | go _ m hmem hresume ih => exact ih.tail (.step (.go [] [] m hmem hresume))
  | wait _ time hready hstuck hle htasks hrunning ih =>
    exact ih.tail (.step (.wait time hready hstuck hle htasks hrunning))
  | drop _ m hmem ih => exact ih.tail (.drop [] [] m hmem)

theorem place_timeline {ι : Type} (c : Crowd B ι α) (who : ι) (began : Nat)
    (next : Activity S α × Timeline S B.World) : (c.place who began next).timeline = next.2 := by
  obtain ⟨p, tl⟩ := next
  cases p <;> rfl

/-- What was put into an inbox that nobody has closed is what was taken out of it, and what lies in
it. -/
theorem sent_eq (h : Tale B program start c log) {k : Inbox} (hstart : start.messages k = [])
    (hopen : ¬ Closed k log) : sentTo k log = takenFrom k log ++ c.timeline.messages k := by
  induction h with
  | enters =>
    have hmail := advance_mail program start hopen
    rw [hstart] at hmail
    rw [place_timeline]
    exact hmail
  | @task c log _ id _ ih =>
    rw [closed_append, not_or] at hopen
    rw [sentTo_append, takenFrom_append, ih hopen.1, List.append_assoc, List.append_assoc]
    exact congrArg _ (runTask_mail { c.timeline with ready := c.timeline.ready.erase id } id hopen.2)
  | @go c log _ m _ _ ih =>
    rw [closed_append, not_or] at hopen
    rw [sentTo_append, takenFrom_append, ih hopen.1, List.append_assoc, List.append_assoc,
      place_timeline, Timeline.resume_eq]
    exact congrArg _ (advance_mail (onward c.timeline m.activity) c.timeline hopen.2)
  | wait _ _ _ _ _ _ _ ih => exact ih hopen
  | @drop c log _ m _ ih =>
    rw [closed_append, not_or] at hopen
    rw [sentTo_append, takenFrom_append, ih hopen.1, List.append_assoc, List.append_assoc]
    refine congrArg _ ?_
    show _ = _ ++ (Timeline.drop B m.activity c.timeline).messages k
    cases hm : m.activity with
    | done a => exact List.append_nil _
    | ask r ws duties next stop =>
      rw [hm] at hopen
      exact advance_mail (fulfilThen (.done ()) duties) c.timeline hopen.2

/-- At the same instant the background comes to rest. -/
theorem lull (hissues : WellFounded (Issues B)) (h : Tale B program start c log) :
    ∃ tl more, Tale B program start { c with timeline := tl } (log ++ more) ∧ tl.ready = [] ∧
      tl.clock = c.timeline.clock := by
  have hturn : ∀ (tl : Timeline S B.World) id rest, tl.ready = id :: rest →
      (∃ more, Tale B program start { c with timeline := tl } (log ++ more)) →
      ∃ more, Tale B program start { c with timeline := runTask B { tl with ready := rest } id }
        (log ++ more) := by
    rintro tl id rest hready ⟨more, htale⟩
    have hnext := htale.task id (hready ▸ List.mem_cons_self)
    rw [show tl.ready.erase id = rest by rw [hready, List.erase_cons_head], List.append_assoc] at hnext
    exact ⟨_, hnext⟩
  obtain ⟨-, tl, -, hready, hclock, more, htale⟩ :=
    Timeline.settle_rest hissues hturn ⟨[], (List.append_nil log).symm ▸ h⟩
  exact ⟨tl, more, htale, hready, hclock⟩

/-! ### Runs are told -/

theorem count_place {ι : Type} (c : Crowd B ι α) (who : ι) (began : Nat)
    (next : Activity S α × Timeline S B.World) :
    (c.place who began next).running.length + (c.place who began next).ended.length =
      c.running.length + c.ended.length + 1 := by
  obtain ⟨p, tl⟩ := next
  cases p with
  | done a =>
    show c.running.length + (c.ended ++ [_]).length = _
    rw [List.length_append]
    rfl
  | ask r ws duties next stop =>
    show (c.running ++ [_]).length + c.ended.length = _
    rw [List.length_append]
    exact Nat.add_right_comm _ _ _

theorem count_of_alone {who : Unit} {began : Nat} {run : Run S B.World α} (h : Alone who began run c) :
    c.running.length + c.ended.length = 1 := by
  rcases h.whole with ⟨a, tl, -, hrunning, hended⟩ | ⟨-, hrunning, hended⟩
  · rw [hrunning, hended]
    rfl
  · rw [hrunning, hended]
    rfl

/-- A tale goes on with a crowd that nobody joins. -/
theorem step {c' : Crowd B Unit α} (h : Tale B program start c log)
    (hstep : Crowd.Step B (fun _ => program) c c') (hone : c.running.length + c.ended.length = 1)
    (hone' : c'.running.length + c'.ended.length = 1) :
    ∃ more, Tale B program start c' (log ++ more) := by
  cases hstep with
  | task id hready => exact ⟨_, h.task id hready⟩
  | enter who =>
    rw [count_place, hone] at hone'
    exact absurd hone' (by decide)
  | go before after m hmem hresume =>
    rw [hmem, List.length_append, List.length_cons] at hone
    obtain rfl : before = [] := List.eq_nil_of_length_eq_zero (by omega)
    obtain rfl : after = [] := List.eq_nil_of_length_eq_zero (by omega)
    exact ⟨_, h.go m hmem hresume⟩
  | wait time hready hstuck hle htasks hrunning =>
    exact ⟨[], (List.append_nil log).symm ▸ h.wait time hready hstuck hle htasks hrunning⟩

/-- A tale is told of every run. -/
theorem of_finish (ho : ∀ c log, Tale B program start c log → c.timeline.Orderly) (turns : Nat) :
    ∃ c log, Tale B program start c log ∧
      Alone () start.clock (Run.finish B turns (Run.start B program start none)) c := by
  have hgoes : ∀ (turns : Nat) (run : Run S B.World α) c log, Tale B program start c log →
      Alone () start.clock run c → run.limit = none →
      ∃ c log, Tale B program start c log ∧ Alone () start.clock (Run.finish B turns run) c := by
    intro turns
    induction turns with
    | zero => exact fun run c log htale halone _ => ⟨c, log, htale, halone⟩
    | succ turns ih =>
      intro run c log htale halone hlimit
      rcases hstep : run.step B with _ | next
      · rw [Run.finish_of_step_none hstep]
        exact ⟨c, log, htale, halone⟩
      · rw [Run.finish_of_step hstep]
        obtain ⟨mid, hmid, hnext⟩ := halone.step (fun _ => program) (ho c log htale) hlimit hstep
        obtain ⟨more, hmore⟩ := htale.step hmid (count_of_alone halone) (count_of_alone hnext)
        exact ih next mid _ hmore hnext ((step_limit hstep).trans hlimit)
  exact hgoes turns _ _ _ .enters (alone_place rfl rfl () start.clock _ _ none) rfl

end Tale

end Wayfind.Activity
