/-
What is left when everything has come to rest, whoever was dropped on the way.

Whoever is dropped has duties that settle its share (`Discharged.goes`): the handles it
holds are released, its race is given up with the handles in the inbox, and its operation
is ended.  So the shares fit together throughout.  When nobody is in the foreground any
more and the background can do nothing, the world owes what it owed before, and for the
handles that callers were given (`owes_of_idle`).
-/
import Wayfind.Proofs.Activity.Dropping
import Wayfind.Proofs.Keeping.Calling
import Wayfind.Proofs.Keeping.Stillness

namespace Wayfind.Keeping

open Activity (Token Inbox Tokens InboxState Request Duty Role Timeline Crowd Ending Kept Sound Stuck
  fulfilThen)
open PageSide (Action releaseDuty)
open Relation (ReflTransGen)

variable {B : PageSide} {K : Activity.Backend B.signature} {b : Browser B} {C : Custody K b}
  {σ : Station C} {x : Share C.Charge} {tl : Timeline B.signature K.World}
  {others : Multiset (Share C.Charge)}

/-! ### Dropping -/

/-- Whoever gives up a race closes its inbox and cancels it, and takes over the handles in it; in
between, the race is closed without being over. -/
theorem Balanced.abandon {A : Account K} {made : Nat} {base : Multiset A.Charge} {x : Share A.Charge}
    {others : Multiset (Share A.Charge)} (hb : Balanced A made base tl (x ::ₘ others)) {d : Due}
    (hd : x.due = some d) :
    Balanced A made base ((tl.close K d.inbox).cancel d.race)
      ({ x with
        due := none, charges := enclosed A.chargeOf (letters (boxes tl) d.inbox) + x.charges } ::ₘ
          others) := by
  obtain ⟨hworld, hclock, htokens, hinboxes⟩ :
      (tl.close K d.inbox).world = tl.world ∧ (tl.close K d.inbox).clock = tl.clock ∧
        (tl.close K d.inbox).tokens = tl.tokens ∧
        boxes (tl.close K d.inbox) = (boxes tl).modify d.inbox fun _ => ⟨[], true⟩ :=
    Timeline.forkAll_keeps _ _
  have hfits : Fits A made base tl.world (boxes tl) (tl.close K d.inbox).tokens tl.clock x others := by
    rw [htokens]
    exact balanced_cons.mp hb
  obtain ⟨hcancelled, hover⟩ := hfits.cancelRace hd
  refine balanced_cancel.mpr ?_
  rw [hworld, hclock, hinboxes]
  exact hcancelled.abandonRace hd hover

/-- Jobs release the handles in messages that nobody will take. -/
theorem Balanced.giveAll {made : Nat} {base rest : Multiset C.Charge}
    (hb : Balanced C.toAccount made base tl (x ::ₘ others)) (messages : List (Except Error B.Handle))
    (hx : x.charges = enclosed C.chargeOf messages + rest) :
    ∃ new : List (Share C.Charge),
      List.Forall₂ (Share.Starts C made) (messages.flatMap discardFound) new ∧
      Balanced C.toAccount made base tl ({ x with charges := rest } ::ₘ (↑new + others)) := by
  induction messages generalizing rest with
  | nil =>
    refine ⟨[], .nil, ?_⟩
    have hrest : x.charges = rest := hx.trans (zero_add rest)
    rw [← hrest, Multiset.coe_nil, zero_add]
    exact hb
  | cons m messages ih =>
    have hsplit : x.charges = enclosed C.chargeOf messages + (C.chargeOf m + rest) := by
      rw [hx, enclosed, List.map_cons, List.sum_cons, add_comm (C.chargeOf m), add_assoc]
      rfl
    obtain ⟨new, hnew, hgiven⟩ := ih hsplit
    cases m with
    | error e =>
      refine ⟨new, hnew, ?_⟩
      have hnone : C.chargeOf (.error e) + rest = rest := zero_add rest
      rw [hnone] at hgiven
      exact hgiven
    | ok handle =>
      refine ⟨.ofCharges (C.charge handle) :: new, .cons (.release handle) hnew, ?_⟩
      rw [← Multiset.cons_coe, Multiset.cons_add]
      exact balanced_cons.mpr ((balanced_cons.mp hgiven).give rfl)

/-- Who is dropped with such duties leaves nothing behind. -/
theorem Discharged.goes {duties : List (Duty B.signature)} (h : Discharged C.toAccount duties x)
    (hb : σ.Holds tl (x ::ₘ others)) : Goes σ (Leaves σ) (fulfilThen (.done ()) duties) others tl := by
  induction h generalizing tl others with
  | @nothing x hcharges hdue hposts htimer _ =>
    have hfinished := balanced_cons.mpr ((balanced_cons.mp hb).finish hposts hdue)
    have hnothing : ({ x with errand := none, seat := none } : Share C.Charge) = .nothing := by
      rw [hcharges, hdue, hposts, htimer]
      rfl
    rw [hnothing] at hfinished
    exact Balanced.cons_nothing.mp hfinished
  | @release x handle rest duties hx _ ih =>
    refine goes_fork (Share.Starts.release handle) (ih ?_)
    exact (balanced_cons.mpr ((balanced_cons.mp hb).give hx)).ignores rfl rfl rfl rfl
  | @race x d duties hd _ ih =>
    obtain ⟨new, hnew, hgiven⟩ := (hb.abandon hd).giveAll (letters (boxes tl) d.inbox) rfl
    have hjobs : List.Forall₂ (Share.Starts C σ.made) (Timeline.jobsOf K tl (.close d.inbox)) new := by
      show List.Forall₂ _ ((tl.messages d.inbox).flatMap K.discard) new
      rw [C.discard]
      exact hnew
    exact Activity.runs_jobs (D := (keeping C σ.made σ.base).within σ.around) (r := .close d.inbox)
      rfl hjobs (goes_cancel.mpr (ih hgiven))
  | @ended x e t duties he ht hdue hposts _ ih =>
    refine goes_cancel.mpr (ih (balanced_cancel.mpr ?_))
    exact (balanced_cons.mp hb).finishLimited hposts hdue he ht (cut_cancel tl t)
      (Timeline.cancel_forest hb.forest t)

theorem keeping_settles (made : Nat) (base : Multiset C.Charge) : (keeping C made base).Settles :=
  fun hparked _ _ hb => Activity.runs_within_nil.mp
    ((hparked.2 rfl).goes (σ := ⟨.foreground, made, base, []⟩) hb)

/-! ### The beginning -/

section Start

variable {A : Account K} {made : Nat} {base : Multiset A.Charge} {shares : Multiset (Share A.Charge)}

/-- Nobody holds anything yet. -/
theorem balanced_zero (howes : A.Owes tl.world base) (hboxes : boxes tl = #[])
    (hforest : tl.tokens.Forest) (hmade : made ≤ tl.tokens.count) : Balanced A made base tl 0 := by
  have hletters : ∀ i, letters (boxes tl) i = [] := fun i => by
    rw [hboxes]
    simp [letters]
  refine ⟨?_, ⟨?_, ?_, ?_, fun i _ => hletters i, fun i _ => ?_⟩, ?_, hforest, Multiset.nodup_zero, ?_,
    ?_, ?_, ?_, hmade⟩
  · refine (congrArg (A.Owes tl.world) ?_).mpr howes
    rw [hboxes]
    exact (add_zero _).trans (add_zero _)
  · simp [postsOf, duesOf]
  · simp [postsOf, duesOf]
  · simp [duesOf]
  · rw [hletters]
    simp [postsOf, duesOf, owed]
  · simp [postsOf]
  · simp [tokensOf]
  · simp
  · simp
  · refine ⟨?_, ?_, ?_, ?_, ?_⟩ <;> simp [errandsOf, timersOf]

/-- Whoever joins and holds nothing changes nothing. -/
theorem Balanced.add_nothing {δ : Type} (hb : Balanced A made base tl 0) (entries : List δ) :
    Balanced A made base tl (entries.map fun _ => Share.nothing : List (Share A.Charge)) := by
  induction entries with
  | nil => exact hb
  | cons entry rest ih => exact Balanced.cons_nothing.mpr ih

/-- To fork jobs that hold nothing changes nothing for anybody. -/
theorem Balanced.forkAll (hb : Balanced A made base tl shares)
    (jobs : List (Job B.Handle B.Page B.Chore)) :
    Balanced A made base (tl.forkAll K jobs) shares := by
  obtain ⟨hworld, hclock, htokens, hinboxes⟩ := Timeline.forkAll_keeps (B := K) jobs tl
  exact hb.ignores hworld hclock htokens hinboxes

end Start

/-- The timeline in which nothing was started, with a signal that may be cancelled already. -/
def opening (w : K.World) (clock : Nat) (cancelled : Bool) : Timeline B.signature K.World :=
  { Timeline.init w with
    clock := clock
    tokens := ⟨#[⟨[], cancelled⟩]⟩ }

section Opening

variable (w : K.World) (clock : Nat) (cancelled : Bool)

theorem children_opening (t : Token) : (opening w clock cancelled).tokens.children t = [] := by
  rcases t with _ | t
  · rfl
  · exact Tokens.children_eq_nil (Nat.le_add_left 1 t)

theorem forest_opening : (opening w clock cancelled).tokens.Forest := by
  refine ⟨?_, ?_, ?_, ?_, ?_⟩ <;> intro t
  · rw [children_opening]
    exact List.nodup_nil
  all_goals simp [children_opening]

theorem orderly_opening : (opening w clock cancelled).Orderly := by
  refine ⟨List.nodup_nil, ?_, ?_, ?_⟩ <;> exact nofun

end Opening

/-! ### Rest -/

section Crowd

variable {ι α : Type} {made : Nat} {base : Multiset C.Charge} {program : ι → B.Task α}
  {kept : α → Multiset C.Charge} {Ends : ι → Nat → α → Timeline B.signature K.World → Prop}

/-- What a caller keeps whose operation has ended so. -/
def Keeps (kept : α → Multiset C.Charge) (a : α) (x : Share C.Charge) : Prop := x = .ofCharges (kept a)

/-- Programs that keep the discipline do so beside jobs, and time may pass. -/
theorem sound (hprograms : ∀ who {tl others}, Balanced C.toAccount made base tl others →
      Goes (C := C) ⟨.foreground, made, base, []⟩ (fun a others after =>
          Balanced C.toAccount made base after (.ofCharges (kept a) ::ₘ others) ∧
            Ends who tl.clock a after) (program who) others tl) :
    Sound (keeping C made base) program (Keeps kept) Ends where
  fresh h := watched_start h
  jobs h _ _ hb := Activity.runs_within_nil.mp
    (goes_start (σ := ⟨.background, made, base, []⟩) rfl h hb)
  programs who _ _ hb := Activity.runs_within_nil.mp
    ((hprograms who hb).mono fun _ _ _ h => ⟨_, rfl, h.1, h.2⟩)
  waits hb hle hstill := Balanced.wait_still hb hle fun x hx =>
    (hstill x hx).imp (fun ⟨_, h⟩ => ⟨_, h⟩) fun ⟨role, r, watched, _, hparked, hstuck, hwake⟩ =>
      ⟨role, r, watched, hparked.1, hstuck, hwake⟩

/-- Whatever is started beside jobs that hold nothing, and whoever has gone on since, the shares fit
together. -/
theorem kept_opening (hs : Sound (keeping C 1 base) program (Keeps kept) Ends) {w : K.World}
    (howes : C.Owes w base) (clock : Nat) (cancelled : Bool)
    {jobs : List (Job B.Handle B.Page B.Chore)} (hjobs : ∀ job ∈ jobs, Share.Starts C 1 job .nothing)
    {c : Crowd K ι α} (h : ReflTransGen (Crowd.Step K program)
      (.init ((opening w clock cancelled).forkAll K jobs)) c) :
    Kept (keeping C 1 base) (Keeps kept) Ends c := by
  have hshares : List.Forall₂ (Share.Starts C 1) jobs (jobs.map fun _ => Share.nothing) := by
    rw [List.forall₂_map_right_iff]
    exact List.forall₂_same.mpr hjobs
  refine (Kept.init hs (orderly_opening w clock cancelled) rfl hshares ?_).steps hs h
  exact ((balanced_zero (A := C.toAccount) howes rfl (forest_opening w clock cancelled)
    (Nat.le_refl 1)).add_nothing jobs).forkAll _

/-- Calls keep the discipline, and each ends as its operation may. -/
theorem sound_calls (calls : ι → Call B) :
    Sound (keeping C 1 base) (fun who => (calls who).activity b) (Keeps C.chargeIn)
      fun who => Ended (calls who).terminal (calls who).timeout (calls who).signal :=
  sound fun who _ _ hb => goes_terminal (C := C) (σ := ⟨.foreground, 1, base, []⟩)
    (l := (calls who).locator) rfl rfl (calls who).signal_lt (calls who).terminal hb

theorem chargesOf_add {γ : Type} (first second : Multiset (Share γ)) :
    chargesOf (first + second) = chargesOf first + chargesOf second := by
  simp [chargesOf]

/-- Callers whose operations have ended keep what they were given. -/
theorem chargesOf_ended {c : Crowd K ι α}
    {ended : List (Ending ι B.signature K.World α × Share C.Charge)} (hended : ended.map Prod.fst = c.ended)
    (hkeeps : ∀ e ∈ ended, Keeps kept e.1.outcome e.2) :
    chargesOf (ended.map Prod.snd : List (Share C.Charge)) = (c.ended.map fun e => kept e.outcome).sum := by
  rw [← hended, chargesOf, Multiset.map_coe, Multiset.sum_coe, List.map_map, List.map_map]
  exact congrArg List.sum (List.map_congr_left fun e he => congrArg Share.charges (hkeeps e he))

/-- At all times the world owes what it owed before, and what callers were given. -/
theorem owes_of_kept {c : Crowd K ι α} (h : Kept (keeping C made base) (Keeps kept) Ends c) :
    ∃ rest, C.Owes c.timeline.world (base + ((c.ended.map fun e => kept e.outcome).sum + rest)) := by
  obtain ⟨tasks, running, ended, -, -, hended, hholds, -, -, hkeeps⟩ := h.shares
  have hb : Balanced C.toAccount made base c.timeline
      ((tasks.map Prod.snd : List (Share C.Charge)) +
        ((running.map Prod.snd : List (Share C.Charge)) + (ended.map Prod.snd : List (Share C.Charge)))) :=
    hholds
  have hledger := hb.ledger
  rw [chargesOf_add, chargesOf_add, chargesOf_ended hended fun e he => (hkeeps e he).1] at hledger
  refine ⟨chargesOf (tasks.map Prod.snd : List (Share C.Charge)) +
    chargesOf (running.map Prod.snd : List (Share C.Charge)) + enclosedAll C.chargeOf (boxes c.timeline),
    (congrArg (C.Owes c.timeline.world) ?_).mpr hledger⟩
  abel

/-- When nobody is in the foreground any more and the background is at rest, the world owes what it
owed before, and what callers were given. -/
theorem owes_of_idle {c : Crowd K ι α} (h : Kept (keeping C made base) (Keeps kept) Ends c)
    (hready : c.timeline.ready = []) (hrunning : c.running = []) :
    C.Owes c.timeline.world (base + (c.ended.map fun e => kept e.outcome).sum) := by
  obtain ⟨waiting, ended, hb, hended, hwaiting, hkeeps⟩ :
      ∃ (waiting : Multiset (Share C.Charge))
        (ended : List (Ending ι B.signature K.World α × Share C.Charge)),
        Balanced C.toAccount made base c.timeline
          (waiting + (ended.map Prod.snd : List (Share C.Charge))) ∧
        ended.map Prod.fst = c.ended ∧
        (∀ x ∈ waiting, ∃ r watched, ∃ duties : List (Duty B.signature),
          (x.Parked .background r watched ∧
            (Role.background = .foreground → Discharged C.toAccount duties x)) ∧
            Stuck K c.timeline r watched) ∧
        ∀ e ∈ ended, Keeps kept e.1.outcome e.2 := h.idle hready hrunning
  have hstill : ∀ x ∈ waiting + (ended.map Prod.snd : List (Share C.Charge)),
      Still K (· = .background) c.timeline x := by
    intro x hx
    rcases Multiset.mem_add.mp hx with hx | hx
    · obtain ⟨r, watched, _, ⟨hparked, -⟩, hstuck⟩ := hwaiting x hx
      exact Or.inr ⟨_, r, watched, rfl, hparked, hstuck⟩
    · obtain ⟨e, he, rfl⟩ := List.mem_map.mp (Multiset.mem_coe.mp hx)
      exact Or.inl ⟨_, hkeeps e he⟩
  have hidle : chargesOf waiting = 0 := by
    refine Multiset.sum_eq_zero fun g hg => ?_
    obtain ⟨x, hx, rfl⟩ := Multiset.mem_map.mp hg
    obtain ⟨r, watched, _, ⟨hparked, -⟩, -⟩ := hwaiting x hx
    exact hb.charges_empty hstill (Multiset.mem_add.mpr (Or.inl hx)) ⟨r, watched, hparked⟩
  have hledger := hb.ledger
  rw [chargesOf_add, hidle, chargesOf_ended hended hkeeps, hb.enclosed_empty hstill, zero_add,
    add_zero] at hledger
  exact hledger

end Crowd

end Wayfind.Keeping
