/-
One activity and the world, whatever else goes on.

Here the background matters only in what it does to the world.  An activity `Asks` only
requests of some kind when it makes no others wherever it goes, and is `Innocent` when all
its questions are mild.  When only `Tame` activities are set to work, which are innocent and
set only such to work themselves, a condition that mild questions keep holds for as long as
the foreground waits; that is all that an activity which is `Steady` relies on.

`Steady` is read off the activity like `Runs`, but follows the world alone, question by
question.  What it says of the end holds when a run has ended and the background has
settled (`run_steady`).
-/
import Wayfind.Proofs.Activity.Recording
import Wayfind.Proofs.Activity.Timeline

namespace Wayfind.Activity

open Timeline (advance resume runTask jobsOf)

variable {S : Signature} {B : Backend S} {α β : Type}

/-- The request may have to wait. -/
def Request.waits : Request S → Bool
  | .sleepUntil _ | .forever | .take _ => true
  | _ => false

/-- In such a world the request may be answered like this, and leaves the world like this. -/
def Request.Leads (B : Backend S) (w : B.World) : (r : Request S) → r.Answer → B.World → Prop
  | .query q, a, v => a = (B.answer q w).1 ∧ v = (B.answer q w).2.1
  | _, _, v => v = w

theorem Timeline.forkAll_world (jobs : List S.Job) (tl : Timeline S B.World) :
    (tl.forkAll B jobs).world = tl.world := by
  induction jobs generalizing tl with
  | nil => rfl
  | cons job rest ih => exact ih (tl.fork B job)

theorem perform_leads {tl after : Timeline S B.World} {r : Request S} {a : r.Answer}
    (hp : Timeline.perform B tl r = some (a, after)) : r.Leads B tl.world a after.world := by
  cases Timeline.performs hp with
  | query q => exact ⟨rfl, Timeline.forkAll_world _ _⟩
  | cancel t => exact (Timeline.cancel_sameBut tl t).world
  | post inbox m =>
    unfold Timeline.post
    split <;> rfl
  | close inbox => exact Timeline.forkAll_world _ _
  | _ => rfl

theorem waits_of_perform {tl : Timeline S B.World} {r : Request S}
    (hp : Timeline.perform B tl r = none) : r.waits = true := by
  cases r with
  | sleepUntil | forever | take => rfl
  | _ => exact absurd hp nofun

/-! ### What an activity asks -/

/-- What is asked when a duty is fulfilled. -/
def Duty.request : Duty S → Request S
  | .fork job => .fork job
  | .cancel t => .cancel t
  | .close inbox => .close inbox

section Asks

variable {P : Request S → Prop}

/-- The activity asks only what is allowed, wherever it goes, and so does whoever fulfils its
duties. -/
def Asks (P : Request S → Prop) : Activity S α → Prop
  | .done _ => True
  | .ask r _ duties next stop =>
    (P r ∧ ∀ d ∈ duties, P d.request) ∧ (∀ a, Asks P (next a)) ∧ ∀ t h, Asks P (stop t h)

theorem Asks.mono {P' : Request S → Prop} {p : Activity S α} (hp : Asks P p)
    (h : ∀ r, P r → P' r) : Asks P' p := by
  induction p with
  | done a => trivial
  | ask r ws duties next stop ihn ihs =>
    exact ⟨⟨h _ hp.1.1, fun d hd => h _ (hp.1.2 d hd)⟩, fun a => ihn a (hp.2.1 a),
      fun t ht => ihs t ht (hp.2.2 t ht)⟩

theorem asks_of_forall (h : ∀ r, P r) (p : Activity S α) : Asks P p := by
  induction p with
  | done a => trivial
  | ask r ws duties next stop ihn ihs => exact ⟨⟨h r, fun d _ => h _⟩, ihn, ihs⟩

theorem Asks.bind {p : Activity S α} {f : α → Activity S β} (hp : Asks P p)
    (hf : ∀ a, Asks P (f a)) : Asks P (bind p f) := by
  induction p with
  | done a => exact hf a
  | ask r ws duties next stop ihn ihs =>
    exact ⟨hp.1, fun a => ihn a (hp.2.1 a), fun t h => ihs t h (hp.2.2 t h)⟩

theorem asks_perform {r : Request S} (hr : P r) : Asks P (Activity.perform r) :=
  ⟨⟨hr, nofun⟩, fun _ => trivial, fun _ h => nomatch h⟩

theorem asks_never (h : P .forever) : Asks P (Activity.never : Activity S α) :=
  ⟨⟨h, nofun⟩, fun e => Empty.elim e, fun _ h => absurd h List.not_mem_nil⟩

theorem Asks.protect {p : Activity S α} (hp : Asks P p) {duties : List (Duty S)}
    (hduties : ∀ d ∈ duties, P d.request) : Asks P (protect duties p) := by
  induction p with
  | done a => trivial
  | ask r ws own next stop ihn ihs =>
    refine ⟨⟨hp.1.1, fun d hd => ?_⟩, fun a => ihn a (hp.2.1 a), fun t h => ihs t h (hp.2.2 t h)⟩
    exact (List.mem_append.mp hd).elim (hp.1.2 d) (hduties d)

theorem Asks.fulfilThen {p : Activity S α} (hp : Asks P p) {duties : List (Duty S)}
    (hduties : ∀ d ∈ duties, P d.request) : Asks P (fulfilThen p duties) := by
  induction duties with
  | nil => exact hp
  | cons d rest ih =>
    have hrest := ih fun e he => hduties e (List.mem_cons_of_mem d he)
    have hfirst := hduties d List.mem_cons_self
    cases d <;> exact (asks_perform hfirst).bind fun _ => hrest

theorem Asks.guard {p halt : Activity S α} (hp : Asks P p) (hhalt : Asks P halt) (t : Token) :
    Asks P (guard t halt p) := by
  induction p with
  | done a => trivial
  | ask r ws duties next stop ihn ihs =>
    refine ⟨hp.1, fun a => ihn a (hp.2.1 a), fun s h => ?_⟩
    dsimp only
    split
    · exact hhalt.fulfilThen hp.1.2
    · exact ihs s _ (hp.2.2 s _)

end Asks

/-! ### Innocence -/

/-- Whatever the activity asks the world is mild. -/
def Innocent (mild : S.Query → Prop) (p : Activity S α) : Prop :=
  Asks (fun r => ∀ q, r = .query q → mild q) p

theorem innocent_of_forall {mild : S.Query → Prop} (h : ∀ q, mild q) (p : Activity S α) :
    Innocent mild p :=
  asks_of_forall (fun _ q _ => h q) p

/-- Mild questions keep the condition. -/
def KeptBy (B : Backend S) (mild : S.Query → Prop) (J : B.World → Prop) : Prop :=
  ∀ q w, mild q → J w → J (B.answer q w).2.1

theorem KeptBy.leads {mild : S.Query → Prop} {J : B.World → Prop} (hJ : KeptBy B mild J)
    {r : Request S} (hr : ∀ q, r = .query q → mild q) {w v : B.World} {a : r.Answer}
    (h : r.Leads B w a v) (hw : J w) : J v := by
  cases r with
  | query q =>
    obtain ⟨-, rfl⟩ := h
    exact hJ q w (hr q rfl) hw
  | _ =>
    obtain rfl : v = w := h
    exact hw

/-! ### The world in the foreground -/

/-- The activity, run in such a world, ends as it should: while it waits the condition holds, and
nothing else is relied on when it goes on. -/
def Steady (B : Backend S) (I : B.World → Prop) (Q : α → B.World → Prop) :
    Activity S α → B.World → Prop
  | .done a, w => Q a w
  | .ask r _ _ next stop, w =>
    (∀ a v, r.Leads B w a v → Steady B I Q (next a) v) ∧
      (r.waits = true → I w ∧ ∀ v, I v →
        (∀ a, Steady B I Q (next a) v) ∧ ∀ t h, Steady B I Q (stop t h) v)

section Steady

variable {I : B.World → Prop} {Q : α → B.World → Prop} {w : B.World}

theorem Steady.mono {Q' : α → B.World → Prop} {p : Activity S α} (h : Steady B I Q p w)
    (hQ : ∀ a w, Q a w → Q' a w) : Steady B I Q' p w := by
  induction p generalizing w with
  | done a => exact hQ a w h
  | ask r ws duties next stop ihn ihs =>
    refine ⟨fun a v hv => ihn a (h.1 a v hv), fun hr => ?_⟩
    obtain ⟨hI, hlater⟩ := h.2 hr
    exact ⟨hI, fun v hv => ⟨fun a => ihn a ((hlater v hv).1 a), fun t ht => ihs t ht ((hlater v hv).2 t ht)⟩⟩

theorem steady_bind {Q : β → B.World → Prop} {p : Activity S α} {f : α → Activity S β} :
    Steady B I Q (bind p f) w ↔ Steady B I (fun a w => Steady B I Q (f a) w) p w := by
  induction p generalizing w with
  | done a => exact Iff.rfl
  | ask r ws duties next stop ihn ihs => simp only [bind, Steady, ihn, ihs]

theorem steady_protect {p : Activity S α} (duties : List (Duty S)) :
    Steady B I Q (protect duties p) w ↔ Steady B I Q p w := by
  induction p generalizing w with
  | done a => exact Iff.rfl
  | ask r ws own next stop ihn ihs => simp only [protect, Steady, ihn, ihs]

/-- A request that does not wait. -/
theorem steady_perform {Q : β → B.World → Prop} {r : Request S} {f : r.Answer → Activity S β}
    (hr : r.waits = false) (h : ∀ a v, r.Leads B w a v → Steady B I Q (f a) v) :
    Steady B I Q (bind (Activity.perform r) f) w :=
  steady_bind.mpr ⟨h, fun hw => absurd (hr.symm.trans hw) Bool.false_ne_true⟩

theorem steady_fulfilThen {p : Activity S α} (duties : List (Duty S)) (h : Steady B I Q p w) :
    Steady B I Q (fulfilThen p duties) w := by
  induction duties with
  | nil => exact h
  | cons d rest ih =>
    cases d <;> exact steady_perform rfl fun _ v hv => hv ▸ ih

/-- Under a token, what takes the place of the activity has to end as it should too. -/
theorem Steady.guard {p halt : Activity S α} (h : Steady B I Q p w)
    (hhalt : ∀ v, I v → Steady B I Q halt v) (t : Token) : Steady B I Q (guard t halt p) w := by
  induction p generalizing w with
  | done a => exact h
  | ask r ws duties next stop ihn ihs =>
    refine ⟨fun a v hv => ihn a (h.1 a v hv), fun hr => ?_⟩
    obtain ⟨hI, hlater⟩ := h.2 hr
    refine ⟨hI, fun v hv => ⟨fun a => ihn a ((hlater v hv).1 a), fun s hs => ?_⟩⟩
    dsimp only
    split
    · exact steady_fulfilThen duties (hhalt v hv)
    · exact ihs s _ ((hlater v hv).2 s _)

/-- What asks only mild questions keeps what they keep. -/
theorem Innocent.steady {mild : S.Query → Prop} {p : Activity S α} (hp : Innocent mild p)
    (hI : KeptBy B mild I) (hw : I w) : Steady B I (fun _ => I) p w := by
  induction p generalizing w with
  | done a => exact hw
  | ask r ws duties next stop ihn ihs =>
    refine ⟨fun a v hv => ihn a (hp.2.1 a) (hI.leads hp.1.1 hv hw), fun _ => ⟨hw, fun v hv => ?_⟩⟩
    exact ⟨fun a => ihn a (hp.2.1 a) hv, fun t ht => ihs t ht (hp.2.2 t ht) hv⟩

/-- The activity has ended as it should, or waits for something. -/
def Rests (B : Backend S) (I : B.World → Prop) (Q : α → B.World → Prop) :
    Activity S α → B.World → Prop
  | .done a, w => Q a w
  | .ask r ws duties next stop, w => I w ∧ ∀ v, I v →
    Steady B I Q (.ask r ws duties next stop) v ∧ ∀ t h, Steady B I Q (stop t h) v

theorem advance_steady {p : Activity S α} {tl : Timeline S B.World}
    (h : Steady B I Q p tl.world) : Rests B I Q (advance B p tl).1 (advance B p tl).2.world := by
  induction p generalizing tl with
  | done a => exact h
  | ask r ws duties next stop ihn ihs =>
    rcases hp : Timeline.perform B tl r with _ | ⟨a, after⟩
    · simp only [advance, hp]
      have hwaits := waits_of_perform hp
      obtain ⟨hI, hlater⟩ := h.2 hwaits
      refine ⟨hI, fun v hv => ⟨⟨fun a u hu => ?_, fun _ => ⟨hv, hlater⟩⟩, (hlater v hv).2⟩⟩
      have hsame : u = v := by
        cases r with
        | sleepUntil | forever | take => exact hu
        | _ => exact absurd hwaits Bool.false_ne_true
      rw [hsame]
      exact (hlater v hv).1 a
    · simp only [advance, hp]
      exact ihn a (h.1 a after.world (perform_leads hp))

theorem resume_steady {p : Activity S α} {tl : Timeline S B.World} (h : Rests B I Q p tl.world) :
    Rests B I Q (resume B p tl).1 (resume B p tl).2.world := by
  cases p with
  | done a => exact h
  | ask r ws duties next stop =>
    simp only [resume]
    split
    · exact advance_steady ((h.2 tl.world h.1).2 _ _)
    · exact advance_steady (h.2 tl.world h.1).1

end Steady

/-! ### What a run comes to -/

/-- The activity makes only permitted requests, and all its questions are mild. -/
structure Tame (permits : Request S → Prop) (mild : S.Query → Prop) (p : Activity S α) : Prop where
  asks : Asks permits p
  innocent : Innocent mild p

/-- Whoever makes only permitted requests sets only tame activities to work. -/
def Tames (B : Backend S) (permits : Request S → Prop) (mild : S.Query → Prop) : Prop :=
  ∀ ⦃tl : Timeline S B.World⦄ ⦃r : Request S⦄, permits r → ∀ job ∈ jobsOf B tl r, Tame permits mild (B.start job)

/-- Everything in the background is tame. -/
def Timeline.Tame (permits : Request S → Prop) (mild : S.Query → Prop) (tl : Timeline S B.World) : Prop :=
  ∀ task ∈ tl.tasks, Activity.Tame permits mild task.activity

/-- Where everything is permitted, to be innocent is enough. -/
theorem Innocent.tame {mild : S.Query → Prop} {p : Activity S α} (hp : Innocent mild p) :
    Tame (fun _ => True) mild p :=
  ⟨asks_of_forall (fun _ => trivial) p, hp⟩

/-- A record sets nobody to work. -/
theorem Tames.recorded {permits : Request S → Prop} {mild : S.Query → Prop} (h : Tames B permits mild) :
    Tames B.recorded permits mild := by
  intro tl r hr job hjob
  have hsame : jobsOf B.recorded tl r = jobsOf B tl.forget r := by cases r <;> rfl
  rw [hsame] at hjob
  exact h hr job hjob

theorem tames_of_innocent {mild : S.Query → Prop} (hjobs : ∀ job, Innocent mild (B.start job)) :
    Tames B (fun _ => True) mild :=
  fun _ _ _ job _ => (hjobs job).tame

section Run

variable {permits : Request S → Prop} {mild : S.Query → Prop} {J : B.World → Prop} {tl : Timeline S B.World}

/-- With tame jobs a tame background stays so. -/
theorem Timeline.Tame.started (ht : tl.Tame permits mild) {jobs : List S.Job}
    (hjobs : ∀ job ∈ jobs, Activity.Tame permits mild (B.start job)) {after : Timeline S B.World}
    (hafter : after.tasks.map (·.activity) = tl.tasks.map (·.activity) ++ jobs.map B.start) :
    after.Tame permits mild := by
  intro task htask
  have hmem : task.activity ∈ after.tasks.map (·.activity) := List.mem_map_of_mem htask
  rw [hafter, List.mem_append] at hmem
  rcases hmem with hmem | hmem
  · obtain ⟨old, hold, hsame⟩ := List.mem_map.mp hmem
    exact hsame ▸ ht old hold
  · obtain ⟨job, hjob, hstart⟩ := List.mem_map.mp hmem
    exact hstart ▸ hjobs job hjob

theorem Timeline.Tame.forkAll (ht : tl.Tame permits mild) {jobs : List S.Job}
    (hjobs : ∀ job ∈ jobs, Activity.Tame permits mild (B.start job)) : (tl.forkAll B jobs).Tame permits mild :=
  ht.started hjobs (Timeline.forkAll_activities jobs tl)

theorem perform_tame (hB : Tames B permits mild) (ht : tl.Tame permits mild) {r : Request S} (hr : permits r)
    {a : r.Answer} {after : Timeline S B.World} (hp : Timeline.perform B tl r = some (a, after)) :
    after.Tame permits mild :=
  ht.started (hB hr) (Timeline.perform_activities hp)

/-- Whoever makes only permitted requests goes on to do so. -/
theorem advance_asks {p : Activity S α} (hp : Asks permits p) : Asks permits (advance B p tl).1 := by
  induction p generalizing tl with
  | done a => exact hp
  | ask r ws duties next stop ihn ihs =>
    rcases hperform : Timeline.perform B tl r with _ | ⟨a, after⟩
    · simp only [advance, hperform]
      exact hp
    · simp only [advance, hperform]
      exact ihn a (hp.2.1 a)

/-- And leaves the background tame. -/
theorem advance_background (hB : Tames B permits mild) {p : Activity S α} (hp : Asks permits p)
    (ht : tl.Tame permits mild) : (advance B p tl).2.Tame permits mild := by
  induction p generalizing tl with
  | done a => exact ht
  | ask r ws duties next stop ihn ihs =>
    rcases hperform : Timeline.perform B tl r with _ | ⟨a, after⟩
    · simp only [advance, hperform]
      exact ht
    · simp only [advance, hperform]
      exact ihn a (hp.2.1 a) (perform_tame hB ht hp.1.1 hperform)

theorem resume_asks {p : Activity S α} (hp : Asks permits p) : Asks permits (resume B p tl).1 := by
  cases p with
  | done a => exact hp
  | ask r ws duties next stop =>
    simp only [resume]
    split
    · exact advance_asks (hp.2.2 _ _)
    · exact advance_asks hp

theorem resume_background (hB : Tames B permits mild) {p : Activity S α} (hp : Asks permits p)
    (ht : tl.Tame permits mild) : (resume B p tl).2.Tame permits mild := by
  cases p with
  | done a => exact ht
  | ask r ws duties next stop =>
    simp only [resume]
    split
    · exact advance_background hB (hp.2.2 _ _) ht
    · exact advance_background hB hp ht

/-- What is innocent stays so, and keeps what mild questions keep. -/
theorem advance_innocent (hJ : KeptBy B mild J) {p : Activity S α} (hp : Innocent mild p)
    (hj : J tl.world) : Innocent mild (advance B p tl).1 ∧ J (advance B p tl).2.world := by
  induction p generalizing tl with
  | done a => exact ⟨trivial, hj⟩
  | ask r ws duties next stop ihn ihs =>
    rcases hperform : Timeline.perform B tl r with _ | ⟨a, after⟩
    · simp only [advance, hperform]
      exact ⟨hp, hj⟩
    · simp only [advance, hperform]
      exact ihn a (hp.2.1 a) (hJ.leads hp.1.1 (perform_leads hperform) hj)

theorem resume_innocent (hJ : KeptBy B mild J) {p : Activity S α} (hp : Innocent mild p)
    (hj : J tl.world) : Innocent mild (resume B p tl).1 ∧ J (resume B p tl).2.world := by
  cases p with
  | done a => exact ⟨trivial, hj⟩
  | ask r ws duties next stop =>
    simp only [resume]
    split
    · exact advance_innocent hJ (hp.2.2 _ _) hj
    · exact advance_innocent hJ hp hj

/-- To drop an activity asks nothing of the world. -/
theorem drop_world (p : Activity S α) (tl : Timeline S B.World) : (Timeline.drop B p tl).world = tl.world := by
  cases p with
  | done a => rfl
  | ask r watched duties next stop =>
    have hnothing : Innocent (fun _ => False) (.done () : Activity S Unit) := trivial
    have hduties : Innocent (fun _ => False) (fulfilThen (.done () : Activity S Unit) duties) := by
      refine hnothing.fulfilThen fun duty _ q hq => ?_
      cases duty <;> exact absurd hq nofun
    exact (advance_innocent (J := (· = tl.world)) (fun _ _ hq => absurd hq id) hduties rfl).2

theorem drop_background (hB : Tames B permits mild) {p : Activity S α} (hp : Asks permits p)
    (ht : tl.Tame permits mild) : (Timeline.drop B p tl).Tame permits mild := by
  cases p with
  | done a => exact ht
  | ask r ws duties next stop =>
    have hnothing : Asks permits (.done () : Activity S Unit) := trivial
    exact advance_background hB (hnothing.fulfilThen hp.1.2) ht

/-- A turn of a background activity. -/
theorem runTask_tame (hB : Tames B permits mild) (hJ : KeptBy B mild J) (ht : tl.Tame permits mild)
    (hj : J tl.world) (id : Nat) :
    (runTask B tl id).Tame permits mild ∧ J (runTask B tl id).world := by
  unfold runTask
  split
  · exact ⟨ht, hj⟩
  · rename_i task hfind
    have htask := ht task (List.mem_of_find?_eq_some hfind)
    have hothers : Timeline.Tame permits mild (B := B) { tl with tasks := tl.tasks.filter (·.id != id) } :=
      fun other hother => ht other (List.mem_of_mem_filter hother)
    have hrest := resume_background hB htask.asks hothers
    have hleft : Asks permits (resume B task.activity { tl with tasks := tl.tasks.filter (·.id != id) }).1 :=
      resume_asks htask.asks
    obtain ⟨hp, hj'⟩ := resume_innocent hJ htask.innocent
      (show J (Timeline.world { tl with tasks := tl.tasks.filter (·.id != id) }) from hj)
    revert hrest hleft hp hj'
    generalize resume B task.activity { tl with tasks := tl.tasks.filter (·.id != id) } = next
    obtain ⟨p, after⟩ := next
    intro hrest hleft hp hj'
    cases p with
    | done a => exact ⟨hrest, hj'⟩
    | ask r ws duties next stop =>
      refine ⟨fun other hother => ?_, hj'⟩
      rcases List.mem_append.mp hother with hother | hother
      · exact hrest other hother
      · rw [List.mem_singleton.mp hother]
        exact ⟨hleft, hp⟩

variable {I : B.World → Prop} {Q : α → B.World → Prop}

theorem Rests.kept (hI : KeptBy B mild I) (hQ : ∀ a, KeptBy B mild (Q a)) (p : Activity S α) :
    KeptBy B mild (Rests B I Q p) := by
  intro q w hq h
  cases p with
  | done a => exact hQ a q w hq h
  | ask r ws duties next stop => exact ⟨hI q w hq h.1, h.2⟩

theorem Rests.world {p : Activity S α} {w : B.World} (h : Rests B J (fun _ => J) p w) : J w := by
  cases p with
  | done a => exact h
  | ask r ws duties next stop => exact h.1

/-- What every turn of a run keeps. -/
structure Run.Steady (permits : Request S → Prop) (mild : S.Query → Prop) (I : B.World → Prop)
    (Q : α → B.World → Prop) (run : Run S B.World α) : Prop where
  background : run.timeline.Tame permits mild
  asks : Asks permits run.main
  main : Rests B I Q run.main run.timeline.world

theorem Run.Steady.step (hB : Tames B permits mild) (hI : KeptBy B mild I)
    (hQ : ∀ a, KeptBy B mild (Q a)) {run next : Run S B.World α} (h : run.Steady permits mild I Q)
    (hstep : run.step B = some next) : next.Steady permits mild I Q := by
  unfold Run.step at hstep
  split at hstep
  · rename_i id rest hready
    obtain rfl := Option.some.inj hstep
    have hback : Timeline.Tame permits mild (B := B) { run.timeline with ready := rest } := h.background
    have htask := runTask_tame hB (Rests.kept hI hQ run.main) hback h.main id
    exact ⟨htask.1, h.asks, htask.2⟩
  · split at hstep
    · exact absurd hstep nofun
    · split at hstep
      · obtain rfl := Option.some.inj hstep
        exact ⟨resume_background hB h.asks h.background, resume_asks h.asks, resume_steady h.main⟩
      · split at hstep
        · exact absurd hstep nofun
        · split at hstep
          · obtain rfl := Option.some.inj hstep
            exact ⟨h.background, h.asks, h.main⟩
          · exact absurd hstep nofun

theorem Run.Steady.finish (hB : Tames B permits mild) (hI : KeptBy B mild I)
    (hQ : ∀ a, KeptBy B mild (Q a)) (budget : Nat) {run : Run S B.World α}
    (h : run.Steady permits mild I Q) : (run.finish B budget).Steady permits mild I Q := by
  induction budget generalizing run with
  | zero => exact h
  | succ budget ih =>
    unfold Run.finish
    split
    · rename_i next hstep
      exact ih (h.step hB hI hQ hstep)
    · exact h

/-- With nobody in the foreground, what held at the end still holds. -/
theorem settle_steady (hB : Tames B permits mild) {J : B.World → Prop}
    (hJ : KeptBy B mild J) (ht : tl.Tame permits mild) (hj : J tl.world) (budget : Nat) :
    J (Timeline.settle B budget tl).world := by
  have hidle : Run.Steady permits mild J (fun (_ : Unit) w => J w) ⟨Activity.done (), tl, none⟩ :=
    ⟨ht, trivial, hj⟩
  exact (hidle.finish hB hJ (fun _ => hJ) budget).main.world

/-- A steady activity that was run to its end ended as it should, and it is still so when the
background has settled. -/
theorem run_steady (hB : Tames B permits mild) (hI : KeptBy B mild I)
    (hQ : ∀ a, KeptBy B mild (Q a)) {p : Activity S α} (ht : tl.Tame permits mild) (hasks : Asks permits p)
    (hp : Steady B I Q p tl.world) {budget : Nat} {a : α} {after : Timeline S B.World}
    (hrun : Timeline.run B budget p tl = (some a, after)) : Q a after.world := by
  have hstart : (Run.start B p tl none).Steady permits mild I Q :=
    ⟨advance_background hB hasks ht, advance_asks hasks, advance_steady hp⟩
  have hlast := hstart.finish hB hI hQ budget
  unfold Timeline.run at hrun
  revert hrun hlast
  generalize Run.finish B budget (Run.start B p tl none) = last
  obtain ⟨main, tl', limit⟩ := last
  intro hrun hlast
  cases main with
  | done a' =>
    obtain ⟨ha, rfl⟩ := Prod.mk.inj hrun
    obtain rfl := Option.some.inj ha
    exact settle_steady hB (hQ a') hlast.background hlast.main budget
  | ask r ws duties next stop => exact absurd (Prod.mk.inj hrun).1 nofun

end Run

end Wayfind.Activity
