/-
What was asked, and under which tokens.

A tale tells what was asked, and in which order; `Annals` tell also which tokens were cancelled at the
time.  They are told of one foreground activity that nobody drops, from its start on, with the background
going on beside it in any order.

Where only activities that come to an end are set off, nothing goes on for ever at one instant: after
some turns nobody can go on (`Annals.exists_rest`).
-/
import Wayfind.Proofs.Activity.Abiding
import Wayfind.Proofs.Activity.Diary

namespace Wayfind.Activity

open Timeline (advance resume runTask moveClock canResume wakeTime onward trail taskTrail)

variable {S : Signature} {B : Backend S} {α β : Type}

/-- An exchange, and the tokens there were when it was made. -/
structure Dealing (S : Signature) where
  tokens : Tokens
  exchange : Exchange S

namespace Timeline

/-- What an activity does until it ends or has to wait, and under which tokens. -/
def dealings (B : Backend S) : Activity S α → Timeline S B.World → List (Dealing S)
  | .done _, _ => []
  | .ask r _ _ next _, tl =>
    match perform B tl r with
    | some (a, after) => ⟨tl.tokens, ⟨r, a⟩⟩ :: dealings B (next a) after
    | none => []

/-- What the background activity with a number does in its turn, and under which tokens. -/
def taskDealings (B : Backend S) (tl : Timeline S B.World) (id : Nat) : List (Dealing S) :=
  match tl.tasks.find? (·.id == id) with
  | none => []
  | some task => dealings B (onward (tl.besides id) task.activity) (tl.besides id)

theorem dealings_stuck {r : Request S} {watched : List Token} {duties : List (Duty S)}
    {next : r.Answer → Activity S α} {stop : (t : Token) → t ∈ watched → Activity S α}
    {tl : Timeline S B.World} (hp : perform B tl r = none) :
    dealings B (.ask r watched duties next stop) tl = [] := by
  simp only [dealings, hp]

theorem dealings_performed {r : Request S} {watched : List Token} {duties : List (Duty S)}
    {next : r.Answer → Activity S α} {stop : (t : Token) → t ∈ watched → Activity S α} {a : r.Answer}
    {tl after : Timeline S B.World} (hp : perform B tl r = some (a, after)) :
    dealings B (.ask r watched duties next stop) tl =
      ⟨tl.tokens, ⟨r, a⟩⟩ :: dealings B (next a) after := by
  simp only [dealings, hp]

theorem map_dealings (p : Activity S α) (tl : Timeline S B.World) :
    (dealings B p tl).map Dealing.exchange = trail B p tl := by
  induction p generalizing tl with
  | done a => rfl
  | ask r ws duties next stop ihn ihs =>
    rcases hp : perform B tl r with _ | ⟨a, after⟩
    · rw [dealings_stuck hp, (stuck hp).2]
      rfl
    · simp only [dealings, trail, hp, List.map_cons, ihn]

theorem map_taskDealings (tl : Timeline S B.World) (id : Nat) :
    (taskDealings B tl id).map Dealing.exchange = taskTrail B tl id := by
  rcases hfind : tl.tasks.find? (·.id == id) with _ | task
  · simp only [taskDealings, taskTrail, hfind, List.map_nil]
  · simp only [taskDealings, taskTrail, hfind, map_dealings]

end Timeline

open Timeline (dealings taskDealings)

theorem Comes.exists_dealings {p q : Activity S α} {tl after : Timeline S B.World} {said : List (Exchange S)}
    (h : Comes B p tl said q after) :
    ∃ first : List (Dealing S), first.map Dealing.exchange = said ∧
      dealings B p tl = first ++ dealings B q after := by
  induction h with
  | stays p tl => exact ⟨[], rfl, rfl⟩
  | @asks r _ _ _ _ _ a tl _ _ _ hp _ ih =>
    obtain ⟨first, hfirst, hrest⟩ := ih
    refine ⟨⟨tl.tokens, ⟨r, a⟩⟩ :: first, congrArg (List.cons _) hfirst, ?_⟩
    rw [Timeline.dealings_performed hp, hrest]
    rfl

/-- What has become of one foreground activity that nobody drops, and all that has been done since its
start: by it, and by the background in any order. -/
inductive Annals (B : Backend S) (program : Activity S α) (start : Timeline S B.World) :
    Crowd B Unit α → List (Dealing S) → Prop
  | enters : Annals B program start ((Crowd.init start).place () start.clock (advance B program start))
      (dealings B program start)
  | task {c : Crowd B Unit α} {log : List (Dealing S)} (h : Annals B program start c log) (id : Nat)
      (hready : id ∈ c.timeline.ready) :
      Annals B program start { c with
          timeline := runTask B { c.timeline with ready := c.timeline.ready.erase id } id }
        (log ++ taskDealings B { c.timeline with ready := c.timeline.ready.erase id } id)
  | go {c : Crowd B Unit α} {log : List (Dealing S)} (h : Annals B program start c log)
      (m : Member Unit S α) (hmem : c.running = [m])
      (hresume : canResume c.timeline m.activity = true) :
      Annals B program start (({ c with running := [] } : Crowd B Unit α).place m.who m.began
          (resume B m.activity c.timeline))
        (log ++ dealings B (onward c.timeline m.activity) c.timeline)
  | wait {c : Crowd B Unit α} {log : List (Dealing S)} (h : Annals B program start c log) (time : Nat)
      (hready : c.timeline.ready = [])
      (hstuck : ∀ m ∈ c.running, canResume c.timeline m.activity = false)
      (hle : c.timeline.clock ≤ time)
      (htasks : ∀ task ∈ c.timeline.tasks, ∀ wake ∈ wakeTime task.activity, time ≤ wake)
      (hrunning : ∀ m ∈ c.running, ∀ wake ∈ wakeTime m.activity, time ≤ wake) :
      Annals B program start { c with timeline := c.timeline.moveClock time } log

namespace Annals

variable {program : Activity S α} {start : Timeline S B.World} {c : Crowd B Unit α}
  {log : List (Dealing S)}

/-- Annals are a tale. -/
theorem tale (h : Annals B program start c log) :
    Tale B program start c (log.map Dealing.exchange) := by
  induction h with
  | enters => exact Timeline.map_dealings program start ▸ .enters
  | task _ id hready ih =>
    rw [List.map_append, Timeline.map_taskDealings]
    exact ih.task id hready
  | go _ m hmem hresume ih =>
    rw [List.map_append, Timeline.map_dealings]
    exact ih.go m hmem hresume
  | wait _ time hready hstuck hle htasks hrunning ih =>
    exact ih.wait time hready hstuck hle htasks hrunning

/-- Annals begin with the first turn of the activity. -/
theorem exists_append (h : Annals B program start c log) :
    ∃ more, log = dealings B program start ++ more := by
  induction h with
  | enters => exact ⟨[], (List.append_nil _).symm⟩
  | task _ _ _ ih | go _ _ _ _ ih =>
    obtain ⟨more, rfl⟩ := ih
    exact ⟨_, List.append_assoc _ _ _⟩
  | wait _ _ _ _ _ _ _ ih => exact ih

/-- Nobody but one is in the foreground. -/
theorem alone (h : Annals B program start c log) : c.running = [] ∨ ∃ m, c.running = [m] := by
  have hplace (c : Crowd B Unit α) (hc : c.running = []) (who : Unit) (began : Nat)
      (next : Activity S α × Timeline S B.World) :
      (c.place who began next).running = [] ∨ ∃ m, (c.place who began next).running = [m] := by
    obtain ⟨p, tl⟩ := next
    cases p with
    | done a => exact Or.inl hc
    | ask r ws duties next stop => exact Or.inr ⟨_, congrArg (· ++ _) hc⟩
  induction h with
  | enters => exact hplace (.init start) rfl () start.clock _
  | go _ m _ _ _ => exact hplace _ rfl m.who m.began _
  | task _ _ _ ih => exact ih
  | wait _ _ _ _ _ _ _ ih => exact ih

/-! ### Rest -/

/-- At the same instant the crowd becomes such a one, and no token is cancelled any less. -/
structure Ensues (B : Backend S) (program : Activity S α) (start : Timeline S B.World) (c : Crowd B Unit α)
    (log : List (Dealing S)) (c' : Crowd B Unit α) (more : List (Dealing S)) : Prop where
  told : Annals B program start c' (log ++ more)
  clock : c'.timeline.clock = c.timeline.clock
  cancelled : ∀ t, c.timeline.isCancelled t = true → c'.timeline.isCancelled t = true

/-- At the same instant the background comes to rest. -/
theorem lull (hissues : WellFounded (Issues B)) (h : Annals B program start c log) :
    ∃ tl more, Ensues B program start c log { c with timeline := tl } more ∧ tl.ready = [] := by
  have hturn : ∀ (tl : Timeline S B.World) id rest, tl.ready = id :: rest →
      (∃ more, Ensues B program start c log { c with timeline := tl } more) →
      ∃ more, Ensues B program start c log
        { c with timeline := runTask B { tl with ready := rest } id } more := by
    rintro tl id rest hready ⟨more, htold, hclock, hcancelled⟩
    have hnext := htold.task id (hready ▸ List.mem_cons_self)
    rw [show tl.ready.erase id = rest by rw [hready, List.erase_cons_head], List.append_assoc] at hnext
    exact ⟨_, hnext, (Timeline.runTask_instant _ id).clock.trans hclock,
      fun t ht => runTask_cancelled id (hcancelled t ht)⟩
  obtain ⟨-, tl, -, hready, -, more, hensues⟩ :=
    Timeline.settle_rest hissues hturn ⟨[], (List.append_nil log).symm ▸ h, rfl, fun _ ht => ht⟩
  exact ⟨tl, more, hensues, hready⟩

/-- From here on everybody comes to rest at this instant. -/
def Calms (B : Backend S) (program : Activity S α) (start : Timeline S B.World) (c : Crowd B Unit α)
    (log : List (Dealing S)) : Prop :=
  ∃ c' more, Ensues B program start c log c' more ∧ c'.Resting

theorem Ensues.calms {c' : Crowd B Unit α} {more : List (Dealing S)} (h : Ensues B program start c log c' more)
    (hcalms : Calms B program start c' (log ++ more)) : Calms B program start c log := by
  obtain ⟨last, others, hlast, hresting⟩ := hcalms
  exact ⟨last, more ++ others, ⟨List.append_assoc log more others ▸ hlast.told, hlast.clock.trans h.clock,
    fun t ht => hlast.cancelled t (h.cancelled t ht)⟩, hresting⟩

/-- Where the foreground can never go on there is only the background. -/
theorem calms_of_stuck (hissues : WellFounded (Issues B)) (h : Annals B program start c log)
    (hstuck : ∀ m ∈ c.running, ∀ tl : Timeline S B.World, canResume tl m.activity = false) :
    Calms B program start c log := by
  obtain ⟨tl, more, hensues, hready⟩ := h.lull hissues
  exact ⟨_, more, hensues, hready, fun m hm => hstuck m hm tl⟩

/-- Whenever the activity has had a turn, everybody comes to rest. -/
def Settles (B : Backend S) (program : Activity S α) (start : Timeline S B.World) (q : Activity S α) : Prop :=
  ∀ (c : Crowd B Unit α) who began (tl : Timeline S B.World) log, c.running = [] →
    Annals B program start (c.place who began (advance B q tl)) log →
    Calms B program start (c.place who began (advance B q tl)) log

/-- An activity that waits comes to rest if it does so whatever it goes on as. -/
theorem calms_of_waits (hissues : WellFounded (Issues B)) {who : Unit} {began : Nat} {r : Request S}
    {ws : List Token} {duties : List (Duty S)} {next : r.Answer → Activity S α}
    {stop : (t : Token) → t ∈ ws → Activity S α} (hnext : ∀ a, Settles B program start (next a))
    (hstop : ∀ t ht, Settles B program start (stop t ht)) (h : Annals B program start c log)
    (hrunning : c.running = [⟨who, began, .ask r ws duties next stop⟩]) : Calms B program start c log := by
  -- first the background comes to rest, and then it is the turn of the activity
  obtain ⟨tl, more, hensues, hready⟩ := h.lull hissues
  refine hensues.calms ?_
  rcases hcan : canResume tl (.ask r ws duties next stop) with _ | _
  · refine ⟨_, [], ⟨(List.append_nil (log ++ more)).symm ▸ hensues.told, rfl, fun _ ht => ht⟩, hready,
      fun m hm => ?_⟩
    rw [show ({ c with timeline := tl } : Crowd B Unit α).running = _ from hrunning] at hm
    rw [List.mem_singleton.mp hm]
    exact hcan
  have hgoes (q : Activity S α) (mid : Timeline S B.World) (hclock : mid.clock = tl.clock)
      (hcancelled : ∀ t, tl.isCancelled t = true → mid.isCancelled t = true)
      (hq : resume B (.ask r ws duties next stop) tl = advance B q mid) (hsettles : Settles B program start q) :
      Calms B program start { c with timeline := tl } (log ++ more) := by
    have htold := hensues.told.go ⟨who, began, .ask r ws duties next stop⟩ hrunning hcan
    dsimp only at htold
    rw [hq] at htold
    have htimeline := Tale.place_timeline { c with timeline := tl, running := [] } who began (advance B q mid)
    refine Ensues.calms ⟨htold, ?_, fun t ht => ?_⟩ (hsettles _ who began mid _ rfl htold)
    · rw [htimeline]
      exact (Timeline.advance_instant q mid).clock.trans hclock
    · rw [htimeline]
      exact advance_cancelled q (hcancelled t ht)
  rcases hfind : ws.find? tl.isCancelled with _ | t
  · rcases hp : Timeline.perform B tl r with _ | ⟨a, after⟩
    · exact absurd ((canResume_of_stuck hfind hp).symm.trans hcan) Bool.false_ne_true
    · refine hgoes (next a) after (Timeline.perform_clock hp) (fun _ => perform_cancelled hp) ?_ (hnext a)
      rw [Timeline.resume_eq, Timeline.onward_of_find_none hfind]
      simp only [advance, hp]
  · refine hgoes (stop t (List.mem_of_find?_eq_some hfind)) tl rfl (fun _ => id) ?_ (hstop t _)
    rw [Timeline.resume_eq, Timeline.onward_interrupted hfind]

theorem settles (hissues : WellFounded (Issues B)) (q : Activity S α) : Settles B program start q := by
  induction q with
  | done a =>
    intro c who began tl log hrunning h
    refine calms_of_stuck hissues h fun m hm => absurd hm ?_
    rw [show (c.place who began (advance B (.done a) tl)).running = c.running from rfl, hrunning]
    exact List.not_mem_nil
  | ask r ws duties next stop ihn ihs =>
    intro c who began tl log hrunning h
    rcases hp : Timeline.perform B tl r with _ | ⟨a, after⟩
    · rw [(Timeline.stuck hp).1] at h ⊢
      exact calms_of_waits hissues ihn ihs h (congrArg (· ++ _) hrunning)
    · simp only [advance, hp] at h ⊢
      exact ihn a c who began after log hrunning h

/-- Nothing goes on for ever at one instant. -/
theorem exists_rest (hissues : WellFounded (Issues B)) (h : Annals B program start c log) :
    Calms B program start c log := by
  rcases h.alone with hrunning | ⟨⟨who, began, p⟩, hrunning⟩
  · exact calms_of_stuck hissues h fun m hm => absurd (hrunning ▸ hm) List.not_mem_nil
  · cases p with
    | done a =>
      refine calms_of_stuck hissues h fun m hm tl => ?_
      rw [hrunning] at hm
      rw [List.mem_singleton.mp hm]
      rfl
    | ask r ws duties next stop =>
      exact calms_of_waits hissues (fun a => settles hissues (next a)) (fun t ht => settles hissues (stop t ht))
        h hrunning

end Annals

end Wayfind.Activity
