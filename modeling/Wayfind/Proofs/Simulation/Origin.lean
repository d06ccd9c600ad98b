/-
Where handles that are sent come from.

Whoever puts a handle into an inbox has it from the page, or from an inbox.  `Learns` is the
protocol of that: every answer adds to the handles that are known, and only known handles are sent.
All operations and jobs are `Frank`, that is they follow it; so whatever anybody sends, the page has
made (`offered_of_tale`).
-/
import Wayfind.Proofs.Activity.Protocol
import Wayfind.Proofs.Activity.Trail
import Wayfind.Proofs.Simulation.Contest

namespace Wayfind.Simulation

open Activity (Token Inbox Request Duty Timeline Crowd Member Tale Exchange Asks Follows fulfilThen
  offeredIn follows_bind follows_protect follows_request follows_ofExcept)
open Activity.Timeline (perform advance resume runTask trail onward taskTrail)
open PageSide (Action releaseDuty)

variable {patience : Nat} {α β : Type}

/-! ### What is known -/

/-- The handles that a request hands on. -/
def vouched : Request side.signature → Multiset Nat
  | .post _ m => handleOf m
  | _ => 0

/-- The handles that come with an answer. -/
def learned : (r : Request side.signature) → r.Answer → Multiset Nat
  | .query q, a => gained q a
  | .take _, m => handleOf m
  | _, _ => 0

/-- Who knows these handles may make the request, and knows those in the answer as well then. -/
def Learns (known : Set Nat) (r : Request side.signature) (after : r.Answer → Set Nat) : Prop :=
  (∀ id ∈ vouched r, id ∈ known) ∧ ∀ a, after a = known ∪ {id | id ∈ learned r a}

/-- Who knows these handles sends no others, and ends as it should. -/
abbrev Frank (Q : Set Nat → α → Prop) : Set Nat → side.Task α → Prop := Follows Learns Q

section Rules

variable {Q : Set Nat → α → Prop} {known : Set Nat} {p : side.Task α}

/-- What is known remains known. -/
theorem Frank.grows (h : Frank Q known p) :
    Frank (fun after a => known ⊆ after ∧ Q after a) known p := by
  induction p generalizing known with
  | done a => exact ⟨Set.Subset.rfl, h⟩
  | ask r ws duties next stop ihn ihs =>
    obtain ⟨after, hlearns, hnext, hstop⟩ := h
    refine ⟨after, hlearns, fun a => (ihn a (hnext a)).mono fun last v ⟨hle, hq⟩ => ⟨?_, hq⟩,
      fun t ht => ihs t ht (hstop t ht)⟩
    rw [hlearns.2 a] at hle
    exact Set.subset_union_left.trans hle

/-- Who is frank remains so when it knows more. -/
theorem Frank.more (hQ : ∀ before after a, before ⊆ after → Q before a → Q after a) {known' : Set Nat}
    (hle : known ⊆ known') (h : Frank Q known p) : Frank Q known' p := by
  induction p generalizing known known' with
  | done a => exact hQ _ _ a hle h
  | ask r ws duties next stop ihn ihs =>
    obtain ⟨after, hlearns, hnext, hstop⟩ := h
    refine ⟨fun a => known' ∪ {id | id ∈ learned r a}, ⟨fun id hid => hle (hlearns.1 id hid),
      fun _ => rfl⟩, fun a => ihn a ?_ (hnext a), fun t ht => ihs t ht hle (hstop t ht)⟩
    rw [hlearns.2 a]
    exact Set.union_subset_union_left _ hle

theorem frank_request {r : Request side.signature} {f : r.Answer → side.Action β}
    {Q : Set Nat → Except Error β → Prop} (hr : ∀ id ∈ vouched r, id ∈ known)
    (hf : ∀ a, Frank Q (known ∪ {id | id ∈ learned r a}) (f a).outcome) :
    Frank Q known (Action.perform r >>= f).outcome :=
  follows_request ⟨hr, fun _ => rfl⟩ hf

theorem frank_perform {r : Request side.signature} {f : r.Answer → side.Task β}
    {Q : Set Nat → β → Prop} (hr : ∀ id ∈ vouched r, id ∈ known)
    (hf : ∀ a, Frank Q (known ∪ {id | id ∈ learned r a}) (f a)) :
    Frank Q known (Activity.bind (Activity.perform r) f) := by
  rw [Activity.bind_perform]
  exact ⟨_, ⟨hr, fun _ => rfl⟩, hf, fun t h => absurd h List.not_mem_nil⟩

/-- Who sends nothing is frank. -/
theorem frank_of_asks (hp : Asks (fun r => vouched r = 0) p) (hQ : ∀ after a, Q after a) :
    Frank Q known p := by
  induction p generalizing known with
  | done a => exact hQ known a
  | ask r ws duties next stop ihn ihs =>
    refine ⟨fun a => known ∪ {id | id ∈ learned r a}, ⟨fun id hid => ?_, fun _ => rfl⟩,
      fun a => ihn a (hp.2.1 a), fun t h => ihs t h (hp.2.2 t h)⟩
    rw [hp.1.1] at hid
    exact absurd hid (Multiset.notMem_zero id)

theorem Modest.vouched {r : Request side.signature} (h : Modest r) : vouched r = 0 := by
  cases r with
  | post => exact absurd h id
  | _ => rfl

theorem frank_of_modest (hp : Asks Modest p) (hQ : ∀ after a, Q after a) : Frank Q known p :=
  frank_of_asks (hp.mono fun _ h => h.vouched) hQ

/-- Who looks knows what it has acquired. -/
theorem frank_of_acquires {P : α → Multiset Nat → Prop} {g : Multiset Nat} (h : Acquires P p g)
    (hg : ∀ id ∈ g, id ∈ known) :
    Frank (fun after a => ∃ g, P a g ∧ ∀ id ∈ g, id ∈ after) known p := by
  have hstop : ∀ {ws : List Token} {t : Token} {C : Prop}, ws = [] → t ∈ ws → C := fun hw ht =>
    absurd (hw ▸ ht) List.not_mem_nil
  induction p generalizing g known with
  | done a => exact ⟨g, h, hg⟩
  | ask r watched duties next stop ihn ihs =>
    cases r with
    | query q =>
      obtain ⟨hwatched, -, -, hnext⟩ := h
      refine ⟨_, ⟨nofun, fun _ => rfl⟩, fun a => ihn a (hnext a) fun id hid => ?_,
        fun t ht => hstop hwatched ht⟩
      exact (Multiset.mem_add.mp hid).symm.imp (hg id) fun hnew => hnew
    | clock =>
      exact ⟨_, ⟨nofun, fun _ => rfl⟩, fun a => ihn a (h.2.2 a) fun id hid => Or.inl (hg id hid),
        fun t ht => hstop h.1 ht⟩
    | announce =>
      exact ⟨_, ⟨nofun, fun _ => rfl⟩, fun a => ihn a h.2.2 fun id hid => Or.inl (hg id hid),
        fun t ht => hstop h.1 ht⟩
    | sleepUntil time =>
      exact ⟨_, ⟨nofun, fun _ => rfl⟩, fun a => ihn a h.2.2.2 nofun, fun t ht => hstop h.1 ht⟩
    | forever => exact ⟨_, ⟨nofun, fun _ => rfl⟩, fun a => Empty.elim a, fun t ht => hstop h.1 ht⟩
    | _ => exact absurd h id

/-- A request that hands nothing on and is answered with no handle. -/
def Plain (r : Request side.signature) : Prop := vouched r = 0 ∧ ∀ a, learned r a = 0

theorem Plain.learns {r : Request side.signature} (h : Plain r) : Learns known r fun _ => known := by
  refine ⟨fun id hid => absurd (h.1 ▸ hid) (Multiset.notMem_zero id), fun a => ?_⟩
  rw [h.2 a]
  simp

theorem frank_plain {r : Request side.signature} {f : r.Answer → side.Task α} (hr : Plain r)
    (hf : ∀ a, Frank Q known (f a)) : Frank Q known (Activity.bind (Activity.perform r) f) := by
  rw [Activity.bind_perform]
  exact ⟨_, hr.learns, hf, fun t h => absurd h List.not_mem_nil⟩

theorem frank_ask {r : Request side.signature} {f : r.Answer → side.Action β}
    {Q : Set Nat → Except Error β → Prop} (hr : Plain r) (hf : ∀ a, Frank Q known (f a).outcome) :
    Frank Q known (Action.perform r >>= f).outcome :=
  follows_request hr.learns hf

theorem Frank.fulfilThen (h : Frank Q known p) (duties : List (Duty side.signature)) :
    Frank Q known (fulfilThen p duties) := by
  induction duties with
  | nil => exact h
  | cons d rest ih => cases d <;> exact frank_plain ⟨rfl, fun _ => rfl⟩ fun _ => ih

/-- What takes the place of an interrupted activity has to be frank wherever that happens. -/
theorem Frank.guard {halt : side.Task α} (hp : Frank Q known p) (hhalt : ∀ known, Frank Q known halt)
    (t : Token) : Frank Q known (Activity.guard t halt p) := by
  induction p generalizing known with
  | done a => exact hp
  | ask r ws duties next stop ihn ihs =>
    obtain ⟨after, hlearns, hnext, hstop⟩ := hp
    refine ⟨after, hlearns, fun a => ihn a (hnext a), fun s hs => ?_⟩
    dsimp only
    split
    · exact (hhalt known).fulfilThen duties
    · exact ihs s _ (hstop s _)

theorem frank_unlessCancelled {halt : side.Task α} (hp : Frank Q known p)
    (hhalt : ∀ known, Frank Q known halt) (t : Token) :
    Frank Q known (Activity.unlessCancelled t halt p) := by
  refine frank_plain ⟨rfl, fun _ => rfl⟩ fun (cancelled : Bool) => ?_
  cases cancelled with
  | true => exact hhalt known
  | false => exact hp.guard hhalt t

theorem frank_guard {Q : Set Nat → Except Error α → Prop} (i : Interrupt) {a : side.Action α}
    (ha : Frank Q known a.outcome) (herror : ∀ after e, Q after (.error e)) :
    Frank Q known (i.guard a).outcome := by
  have hfail : ∀ known, Frank Q known (Interrupt.fail i : side.Action α).outcome := fun known => by
    unfold Interrupt.fail
    exact (frank_of_modest (modest_error i) fun _ _ => trivial : Frank (fun _ _ => True) known _).andThen
      (fun after e _ => herror after e) fun after e _ => herror after e
  exact frank_unlessCancelled ha hfail i.token

/-- Who is frank, whatever it ends with. -/
abbrev Sends (known : Set Nat) (p : side.Task α) : Prop := Frank (fun _ _ => True) known p

theorem Asking.sends {a : side.Action α} (ha : Asking Modest a) : Sends known a.outcome :=
  frank_of_modest ha fun _ _ => trivial

/-- What was known before an action is known after it. -/
theorem Sends.andThen {a : side.Action α} {f : α → side.Action β} {Q : Set Nat → Except Error β → Prop}
    (ha : Sends known a.outcome) (hf : ∀ after v, known ⊆ after → Frank Q after (f v).outcome)
    (herror : ∀ after e, Q after (.error e)) : Frank Q known (a >>= f).outcome :=
  (Frank.grows ha).andThen (fun after v h => hf after v h.1) fun after e _ => herror after e

theorem Sends.protect (h : Sends known p) (duties : List (Duty side.signature)) :
    Sends known (Activity.protect duties p) :=
  (follows_protect duties).mpr h

end Rules

/-! ### Looking -/

/-- The handle that somebody ends with is known. -/
def Owns (known : Set Nat) (r : Except Error Handle) : Prop := ∀ id ∈ handleOf r, id ∈ known

theorem owns_error (known : Set Nat) (e : Error) : Owns known (.error e) := nofun

theorem Owns.mono {known after : Set Nat} {r : Except Error Handle} (h : Owns known r)
    (hle : known ⊆ after) : Owns after r := fun id hid => hle (h id hid)

section Looking

variable {known : Set Nat}

/-- Who looks under a token owns what it finds. -/
theorem frank_look (i : Interrupt) {a : side.Action Handle}
    (ha : Acquires (fun r g => g = handleOf r) a.outcome 0) : Frank Owns known (i.guard a).outcome := by
  refine frank_guard i ((frank_of_acquires ha nofun).mono ?_) owns_error
  rintro after r ⟨_, rfl, hg⟩
  exact hg

theorem frank_firstHandle {Q : Set Nat → Except Error (Except (Option Error) (Handle × Nat)) → Prop}
    (inbox : Inbox) (count : Nat) (last : Option Error)
    (hwon : ∀ after h left, h.id ∈ after → Q after (.ok (.ok (h, left))))
    (hlost : ∀ after last, Q after (.ok (.error last))) :
    Frank Q known (Race.firstHandle (B := side) inbox count last).outcome := by
  induction count generalizing known last with
  | zero => exact hlost known last
  | succ count ih =>
    refine frank_request nofun fun (m : Except Error Handle) => ?_
    cases m with
    | ok h => exact hwon _ h count (Or.inr (Multiset.mem_singleton_self h.id))
    | error e => exact ih (some e)

theorem frank_forkBranches (race : Interrupt) (inbox : Inbox) (branches : List (Locator Unit))
    {f : Unit → side.Action β} {Q : Set Nat → Except Error β → Prop}
    (hf : Frank Q known (f ()).outcome) :
    Frank Q known (Race.forkBranches (B := side) race inbox branches >>= f).outcome := by
  induction branches with
  | nil =>
    simp only [Race.forkBranches, pure_bind]
    exact hf
  | cons l rest ih =>
    simp only [Race.forkBranches, Interrupt.child, bind_assoc, pure_bind]
    exact frank_ask ⟨rfl, fun _ => rfl⟩ fun t => frank_ask ⟨rfl, fun _ => rfl⟩ fun _ => ih

/-- A race owns the handle of its winner. -/
theorem frank_race (branches : List (Locator Unit)) (i : Interrupt) :
    Frank Owns known (Race.run (B := side) branches i).outcome := by
  by_cases hne : branches = []
  · subst hne
    exact owns_error known _
  · rw [race_run hne]
    simp only [Interrupt.child, bind_assoc, pure_bind]
    refine frank_ask ⟨rfl, fun _ => rfl⟩ fun t => frank_ask ⟨rfl, fun _ => rfl⟩ fun (inbox : Inbox) => ?_
    refine frank_forkBranches _ inbox branches ?_
    have hread : Frank (fun after r => ∀ h left, r = .ok (.ok (h, left)) → h.id ∈ after) known
        ((Race.firstHandle (B := side) inbox branches.length none).protect
          [.close inbox, .cancel t]).outcome := by
      refine (follows_protect _).mpr (frank_firstHandle inbox _ none ?_ ?_)
      · rintro after h left hid _ _ heq
        obtain ⟨rfl, -⟩ := Prod.mk.inj (Except.ok.inj (Except.ok.inj heq))
        exact hid
      · intro after last h left heq
        cases heq
    refine hread.andThen (fun after winner hwinner => ?_) fun after e _ => owns_error after e
    refine frank_ask ⟨rfl, fun _ => rfl⟩ fun _ => ?_
    cases winner with
    | ok found =>
      refine frank_ask ⟨rfl, fun _ => rfl⟩ fun _ => ?_
      rintro id hid
      rw [Multiset.mem_singleton.mp hid]
      exact hwinner found.1 found.2 rfl
    | error last => exact owns_error after _

/-- Who finds a handle owns it. -/
theorem frank_resolve (i : Interrupt) :
    ∀ (l : Locator side.Page) (known : Set Nat), Frank Owns known (l.resolve (browser patience) i).outcome
  | .node o _ selector, known => by
    unfold Locator.resolve
    refine (modest_remaining i).sends.andThen (fun mid ms _ => ?_) owns_error
    have hfound : Frank (fun after r => ∀ id ∈ foundIn r, id ∈ after) mid
        (i.guard ((pages patience).waitForSelector () selector
          ⟨ms, o.visibility == some .visible, o.visibility == some .hidden⟩)).outcome := by
      refine frank_guard i ((frank_of_acquires (acquires_waitForSelector selector _)
        fun id hid => absurd hid (Multiset.notMem_zero id)).mono ?_) owns_error
      rintro after r ⟨_, rfl, hg⟩
      exact hg
    refine hfound.andThen (fun after found hids => ?_) fun after e _ => owns_error after e
    cases found with
    | some handle => exact hids
    | none => exact owns_error after _
  | .function _ _ script, known => by
    unfold Locator.resolve
    exact (modest_remaining i).sends.andThen (fun mid ms _ => frank_look i (acquires_callHandle script))
      owns_error
  | .filtered o inner predicate, known => by
    unfold Locator.resolve
    refine (frank_resolve i inner known).andThen (fun mid handle howns => ?_)
      fun after e _ => owns_error after e
    have hheld : Sends mid ((i.guard ((realm patience).waitFor predicate ⟨o.timeout, .mutation⟩ []
        [.handle handle])).protect [releaseDuty handle]).outcome :=
      (modest_guard i (modest_waitFor predicate _ _)).sends.protect _
    have hrelease : ∀ h, Asking Modest ((realm patience).releaseIn h) := modest_releaseIn
    refine (Frank.grows hheld).attempt fun after held hafter => ?_
    cases held with
    | ok result =>
      exact ((hrelease result).sends.protect _).andThen (fun last _ hle' => howns.mono (hafter.1.trans hle'))
        owns_error
    | error e => exact ((hrelease handle).sends.protect _).andThen (fun last _ _ => owns_error last e) owns_error
  | .mapped _ inner mapper, known => by
    unfold Locator.resolve
    refine (frank_resolve i inner known).andThen (fun mid handle _ => ?_) fun after e _ => owns_error after e
    have hmade : Frank Owns mid ((i.guard ((realm patience).evaluateHandle handle mapper [])).protect
        [releaseDuty handle]).outcome :=
      (follows_protect _).mpr (frank_look i (acquires_evaluateHandle handle mapper))
    have hrelease : Asking Modest ((realm patience).releaseIn handle) := modest_releaseIn handle
    refine hmade.attempt fun after made howns => ?_
    exact (hrelease.sends.protect _).andThen (fun last _ hle => follows_ofExcept (howns.mono hle)) owns_error
  | .race _ branches, known => by
    unfold Locator.resolve
    exact frank_race branches i

end Looking

/-! ### Background work -/

section Jobs

variable (patience) (known : Set Nat)

theorem sends_release (handle : Handle) : Sends known ((realm patience).release handle) :=
  frank_of_modest (asks_release patience handle) fun _ _ => trivial

theorem sends_last {r : Request side.signature} (hr : vouched r = 0) :
    Sends known (Activity.perform r : side.Task r.Answer) :=
  frank_of_asks (Activity.asks_perform hr) fun _ _ => trivial

/-- A branch sends what it has found, and no other handle. -/
theorem sends_branch (l : Locator Unit) (i : Interrupt) (inbox : Inbox) :
    Sends known (l.runBranch (browser patience) i inbox) := by
  have hend : ∀ known, Sends known (Activity.perform (.discard i.token) : side.Task Unit) :=
    fun known => sends_last known rfl
  refine follows_bind.mpr ((frank_resolve i l known).mono fun mid found howns => ?_)
  refine frank_perform howns fun (accepted : Bool) => ?_
  cases found with
  | ok handle =>
    cases accepted with
    | true => exact hend _
    | false =>
      exact follows_bind.mpr ((sends_release patience _ handle).mono fun after _ _ => hend after)
  | error e => exact hend _

theorem sends_drain (inbox : Inbox) (count : Nat) : Sends known (Race.drain (realm patience) inbox count) := by
  induction count generalizing known with
  | zero => trivial
  | succ count ih =>
    refine frank_perform nofun fun (m : Except Error Handle) => ?_
    cases m with
    | ok handle => exact follows_bind.mpr ((sends_release patience _ handle).mono fun after _ _ => ih after)
    | error e => exact ih _

theorem sends_expire (i : Interrupt) (ended : Token) : Sends known (i.expire ended : side.Task Unit) := by
  unfold Interrupt.expire
  split
  · trivial
  · rename_i deadline hdeadline
    have hawait : Sends known _ :=
      frank_of_modest (asks_awaitDeadline i ended deadline) fun _ _ => trivial
    refine follows_bind.mpr (hawait.mono fun after reached _ => ?_)
    cases reached with
    | true => exact frank_plain ⟨rfl, fun _ => rfl⟩ fun _ => sends_last after rfl
    | false => trivial

/-- Every job is frank. -/
theorem sends_start (job : Job Handle Unit Timed) : Sends known ((backend patience).start job) := by
  cases job with
  | release handle => exact sends_release patience known handle
  | branch l i inbox => exact sends_branch patience known l i inbox
  | drain inbox count => exact sends_drain patience known inbox count
  | expire i ended => exact sends_expire known i ended
  | cancelAt time t => exact frank_plain ⟨rfl, fun _ => rfl⟩ fun _ => sends_last known rfl
  | chore c => exact frank_plain ⟨rfl, fun _ => rfl⟩ fun _ => sends_last known rfl

end Jobs

/-! ### What was made -/

/-- The handles that a recorded page has made. -/
def made (tl : Timeline side.signature (recording patience).World) : Set Nat :=
  {id | id ∈ madeIn tl.world.2}

/-- The page has made all handles that lie in inboxes, and nobody in the background sends others. -/
structure Traced (tl : Timeline side.signature (recording patience).World) : Prop where
  messages : ∀ k, ∀ m ∈ tl.messages k, Owns (made tl) m
  tasks : ∀ p ∈ tl.bag, Sends (made tl) p

section Traced

variable {tl after : Timeline side.signature (recording patience).World}

theorem Sends.more {known known' : Set Nat} {p : side.Task α} (h : Sends known p) (hle : known ⊆ known') :
    Sends known' p :=
  Frank.more (fun _ _ _ _ _ => trivial) hle h

/-- The page has made what comes with its answers. -/
theorem learned_subset_made (h : Traced tl) {r : Request side.signature} {a : r.Answer}
    (hp : perform (recording patience) tl r = some (a, after)) :
    made tl ∪ {id | id ∈ learned r a} ⊆ made after := by
  have hleads := Activity.perform_leads hp
  have hsame : after.world = tl.world → made after = made tl := fun hw => by rw [made, made, hw]
  cases r with
  | query q =>
    obtain ⟨rfl, hworld⟩ := hleads
    have hmade : madeIn after.world.2 =
        madeIn tl.world.2 + gained q ((recording patience).answer q tl.world).1 := by
      rw [hworld]
      exact madeIn_concat _ _
    intro id hid
    show id ∈ madeIn after.world.2
    rw [hmade]
    exact Multiset.mem_add.mpr hid
  | take inbox =>
    rw [hsame hleads]
    exact Set.union_subset Set.Subset.rfl
      (h.messages inbox a ((traffic_take hp).1 ▸ List.mem_cons_self))
  | _ =>
    rw [hsame hleads]
    exact Set.union_subset Set.Subset.rfl fun id hid => absurd hid (Multiset.notMem_zero id)

theorem Traced.perform (h : Traced tl) {r : Request side.signature} {a : r.Answer}
    (hp : perform (recording patience) tl r = some (a, after))
    (hr : ∀ id ∈ vouched r, id ∈ made tl) : Traced after := by
  have hle : made tl ⊆ made after := Set.subset_union_left.trans (learned_subset_made h hp)
  refine ⟨fun k m hm => ?_, fun p hpm => ?_⟩
  · refine Owns.mono ?_ hle
    rcases Activity.mem_messages_of_perform hp hm with hold | hnew
    · exact h.messages k m hold
    · cases r with
      | post inbox m' =>
        rw [List.mem_singleton.mp hnew]
        exact hr
      | _ => exact absurd hnew List.not_mem_nil
  · rw [Timeline.perform_bag hp] at hpm
    rcases Multiset.mem_add.mp hpm with hold | hnew
    · exact (h.tasks p hold).more hle
    · obtain ⟨job, -, rfl⟩ := List.mem_map.mp (Multiset.mem_coe.mp hnew)
      exact sends_start patience _ job

/-- Whoever is frank leaves everything traced, and sends only what the page has made. -/
theorem Traced.advance {p : side.Task α} (h : Traced tl) (hp : Sends (made tl) p) :
    made tl ⊆ made (advance (recording patience) p tl).2 ∧
      Traced (advance (recording patience) p tl).2 ∧
      Sends (made (advance (recording patience) p tl).2) (advance (recording patience) p tl).1 ∧
      ∀ m ∈ offeredIn (trail (recording patience) p tl), Owns (made (advance (recording patience) p tl).2) m := by
  induction p generalizing tl with
  | done a => exact ⟨Set.Subset.rfl, h, hp, fun _ hm => absurd hm List.not_mem_nil⟩
  | ask r ws duties next stop ihn ihs =>
    rcases hperform : Timeline.perform (recording patience) tl r with _ | ⟨a, after⟩
    · simp only [Timeline.advance, Timeline.trail, hperform]
      exact ⟨Set.Subset.rfl, h, hp, fun _ hm => absurd hm List.not_mem_nil⟩
    · simp only [Timeline.advance, Timeline.trail, hperform, Activity.offeredIn_cons]
      obtain ⟨lead, hlearns, hnext, -⟩ := hp
      have hlearned := learned_subset_made h hperform
      have hgoes : Sends (made after) (next a) := Sends.more (hlearns.2 a ▸ hnext a) hlearned
      obtain ⟨hle, htraced, hsends, hoffered⟩ := ihn a (h.perform hperform hlearns.1) hgoes
      have hgrows : made tl ⊆ made (Timeline.advance (recording patience) (next a) after).2 :=
        Set.subset_union_left.trans (hlearned.trans hle)
      refine ⟨hgrows, htraced, hsends, fun m hm => ?_⟩
      rcases List.mem_append.mp hm with hfirst | hlater
      · cases r with
        | post inbox m' =>
          rw [List.mem_singleton.mp hfirst]
          exact Owns.mono hlearns.1 hgrows
        | _ => exact absurd hfirst List.not_mem_nil
      · exact hoffered m hlater

theorem Sends.onward {World : Type} {known : Set Nat} {p : side.Task α} (h : Sends known p)
    (tl : Timeline side.signature World) : Sends known (onward tl p) := by
  cases p with
  | done a => exact h
  | ask r ws duties next stop =>
    obtain ⟨lead, hlearns, hnext, hstop⟩ := h
    simp only [Timeline.onward]
    split
    · exact hstop _ _
    · exact ⟨lead, hlearns, hnext, hstop⟩

/-- So does the background. -/
theorem Traced.runTask (h : Traced tl) (id : Nat) :
    made tl ⊆ made (runTask (recording patience) tl id) ∧ Traced (runTask (recording patience) tl id) ∧
      ∀ m ∈ offeredIn (taskTrail (recording patience) tl id),
        Owns (made (runTask (recording patience) tl id)) m := by
  rcases Timeline.turn tl id with ⟨htrail, hsame⟩ | ⟨task, hfind, htrail, hrejoined⟩
  · rw [htrail, hsame]
    exact ⟨Set.Subset.rfl, h, nofun⟩
  · have hbag := Timeline.cons_bag_le hfind
    have hbeside : Traced (tl.besides id) :=
      ⟨h.messages, fun p hp => h.tasks p (Multiset.mem_of_le hbag (Multiset.mem_cons_of_mem hp))⟩
    have htask : Sends (made (tl.besides id)) (onward (tl.besides id) task.activity) :=
      (h.tasks _ (Multiset.mem_of_le hbag (Multiset.mem_cons_self _ _))).onward _
    obtain ⟨hle, htraced, hsends, hoffered⟩ := hbeside.advance htask
    have hmade : made (Timeline.runTask (recording patience) tl id) = made (Timeline.advance (recording patience)
        (onward (tl.besides id) task.activity) (tl.besides id)).2 := by
      rw [made, made, hrejoined.world]
    rw [htrail, hmade]
    refine ⟨hle, ⟨fun k m hm => ?_, fun p hp => ?_⟩, hoffered⟩
    · rw [Activity.messages_of_inboxes hrejoined.inboxes] at hm
      rw [hmade]
      exact htraced.messages k m hm
    · rw [hmade]
      rcases Multiset.mem_add.mp (Multiset.mem_of_le hrejoined.bag hp) with hp | hp
      · exact htraced.tasks p hp
      · rw [Multiset.mem_singleton.mp hp]
        exact hsends

end Traced

/-! ### What was sent -/

/-- However far somebody has come, all is traced that was sent by then. -/
structure Told (c : Crowd (recording patience) Unit α) (log : List (Exchange side.signature)) : Prop where
  traced : Traced c.timeline
  running : ∀ m ∈ c.running, Sends (made c.timeline) m.activity
  offered : ∀ m ∈ offeredIn log, Owns (made c.timeline) m

section Told

variable {c : Crowd (recording patience) Unit α} {log : List (Exchange side.signature)}

theorem mem_running_place {m : Member Unit side.signature α} {who : Unit} {began : Nat}
    {p : side.Task α} {tl : Timeline side.signature (recording patience).World}
    (hm : m ∈ (c.place who began (p, tl)).running) : m ∈ c.running ∨ m.activity = p := by
  cases p with
  | done a => exact Or.inl hm
  | ask r ws duties next stop =>
    exact (List.mem_append.mp hm).imp_right fun hlast => congrArg Member.activity (List.mem_singleton.mp hlast)

/-- Who is frank goes on so. -/
theorem Told.place (h : Told c log) {p : side.Task α} (hp : Sends (made c.timeline) p) (who : Unit)
    (began : Nat) :
    Told (c.place who began (advance (recording patience) p c.timeline))
      (log ++ trail (recording patience) p c.timeline) := by
  obtain ⟨hle, htraced, hsends, hoffered⟩ := h.traced.advance hp
  have htimeline : (c.place who began (advance (recording patience) p c.timeline)).timeline =
      (advance (recording patience) p c.timeline).2 := Tale.place_timeline _ _ _ _
  refine ⟨htimeline ▸ htraced, fun m hm => ?_, fun m hm => ?_⟩
  · rw [htimeline]
    rcases mem_running_place hm with hm | hm
    · exact (h.running m hm).more hle
    · exact hm ▸ hsends
  · rw [htimeline]
    rcases List.mem_append.mp (Activity.offeredIn_append _ _ ▸ hm) with hm | hm
    · exact (h.offered m hm).mono hle
    · exact hoffered m hm

/-- Whatever anybody sends in a tale of somebody frank, the page has made. -/
theorem told_of_tale {program : side.Task α} {start : Timeline side.signature (recording patience).World}
    (hstart : Traced start) (hprogram : ∀ known, Sends known program)
    (h : Tale (recording patience) program start c log) : Told c log := by
  induction h with
  | enters =>
    have hinit : Told (Crowd.init start : Crowd (recording patience) Unit α) [] := ⟨hstart, nofun, nofun⟩
    exact hinit.place (hprogram _) () start.clock
  | @task c log _ id _ ih =>
    set queued : Timeline side.signature (recording patience).World :=
      { c.timeline with ready := c.timeline.ready.erase id }
    have hqueued : Traced queued := ⟨ih.traced.messages, ih.traced.tasks⟩
    obtain ⟨hle, htraced, hoffered⟩ := hqueued.runTask id
    refine ⟨htraced, fun m hm => (ih.running m hm).more hle, fun m hm => ?_⟩
    rcases List.mem_append.mp (Activity.offeredIn_append _ _ ▸ hm) with hm | hm
    · exact (ih.offered m hm).mono hle
    · exact hoffered m hm
  | @go c log _ m hmem _ ih =>
    have hrest : Told ({ c with running := [] } : Crowd (recording patience) Unit α) log :=
      ⟨ih.traced, nofun, ih.offered⟩
    rw [Timeline.resume_eq]
    refine hrest.place ((ih.running m ?_).onward c.timeline) m.who m.began
    rw [hmem]
    exact List.mem_cons_self
  | wait _ _ _ _ _ _ _ ih => exact ⟨⟨ih.traced.messages, ih.traced.tasks⟩, ih.running, ih.offered⟩
  | @drop c log _ m hmem ih =>
    obtain ⟨who, began, p⟩ := m
    cases p with
    | done a =>
      refine ⟨ih.traced, nofun, ?_⟩
      rw [show Timeline.dropTrail (recording patience) (.done a) c.timeline = [] from rfl, List.append_nil]
      exact ih.offered
    | ask r ws duties next stop =>
      have hnothing : Sends (made c.timeline) (.done () : side.Task Unit) := trivial
      have hduties : Sends (made c.timeline) (fulfilThen (.done ()) duties) :=
        Frank.fulfilThen hnothing duties
      obtain ⟨hle, htraced, -, hoffered⟩ := ih.traced.advance hduties
      refine ⟨htraced, nofun, fun m hm => ?_⟩
      rcases List.mem_append.mp (Activity.offeredIn_append _ _ ▸ hm) with hm | hm
      · exact (ih.offered m hm).mono hle
      · exact hoffered m hm

end Told

/-- An operation that races is frank. -/
theorem sends_contest (c : Contest) (known : Set Nat) : Sends known c.activity := by
  have hbody : ∀ (i : Interrupt) (known : Set Nat), Sends known (c.body i).outcome := fun i known => by
    unfold Contest.body
    exact (frank_race c.branches i).attempt fun after r _ => frank_ask ⟨rfl, fun _ => rfl⟩ fun _ => trivial
  unfold Contest.activity Interrupt.within
  refine frank_ask ⟨rfl, fun _ => rfl⟩ fun token => frank_ask ⟨rfl, fun _ => rfl⟩ fun expired => ?_
  split
  · exact hbody _ known
  · refine frank_ask ⟨rfl, fun _ => rfl⟩ fun now => frank_ask ⟨rfl, fun _ => rfl⟩ fun ended => ?_
    refine frank_ask ⟨rfl, fun _ => rfl⟩ fun _ => ?_
    refine Follows.attempt ((hbody _ known).protect _) fun after outcome _ => ?_
    exact frank_ask ⟨rfl, fun _ => rfl⟩ fun _ => follows_ofExcept trivial

end Wayfind.Simulation
