/-
What an operation hands on, its locator may find.

An operation that hands on a handle makes attempts until one finds it.  All that goes on
meanwhile is honest (`Borne.finish`), so whoever finds a handle vouches for it, or it is released;
but whoever is given a handle finds it live.  So the locator admits what the handle refers to, by
what the page was asked while that attempt went on (`admits_of_run`).
-/
import Wayfind.Proofs.Activity.Sequence
import Wayfind.Proofs.Simulation.Award
import Wayfind.Proofs.Simulation.Conservation
import Wayfind.Proofs.Simulation.Outside
import Wayfind.Proofs.Simulation.Pausing
import Wayfind.Proofs.Simulation.Provenance

namespace Wayfind.Simulation

open Activity (Duty Timeline Run Honest Borne honest_bind honest_plain)
open PageSide (Action)

variable {patience : Nat} {call : Call} {began fuel : Nat}
  {tl last : Timeline side.signature (recording patience).World} {h : Handle}

/-! ### Attempt after attempt -/

namespace Call

/-- After an attempt that has failed: the error of the interruption, or a pause. -/
def bracing (call : Call) (began : Nat) : side.Action Unit := do
  match ← (call.interrupt began).interruption with
  | some e => throw e
  | none => (call.interrupt began).pause

/-- After such a pause there are so many more attempts. -/
def rested (call : Call) (patience began fuel : Nat) :
    Except Error Unit → side.Task (Except Error (Option Handle))
  | .ok () => call.looping patience began fuel
  | .error e => call.closing patience (.error e)

/-- After an attempt that has succeeded the operation is about to end; else it pauses first. -/
def tried (call : Call) (patience began fuel : Nat) :
    Except Error (Option Handle) → side.Task (Except Error (Option Handle))
  | .ok r => call.closing patience (.ok r)
  | .error _ => Activity.bind (Activity.protect call.duties (call.bracing began).outcome)
      (call.rested patience began fuel)

theorem again_error (e : Error) :
    call.again patience began fuel (.error e) = (do
      call.bracing began
      call.locator.attempts (browser patience) call.terminal.operation (call.interrupt began) fuel) := by
  simp only [again, bracing, bind_assoc]
  refine congrArg (Bind.bind _) (funext fun interruption => ?_)
  cases interruption <;> rfl

/-- One attempt follows another. -/
theorem looping_eq : call.looping patience began (fuel + 1) =
    Activity.bind (Activity.protect call.duties (call.attempt patience began))
      (call.tried patience began fuel) := by
  rw [looping_succ]
  refine congrArg (Activity.bind _) (funext fun r => ?_)
  cases r with
  | ok r => rfl
  | error e =>
    have hagain := (congrArg Action.outcome (again_error e)).trans (outcome_bind (call.bracing began)
      fun _ => call.locator.attempts (browser patience) call.terminal.operation (call.interrupt began) fuel)
    refine (congrArg (fun p => Activity.bind (Activity.protect call.duties p) (call.closing patience))
      hagain).trans ?_
    refine ((congrArg (Activity.bind · (call.closing patience)) (protect_bind _ _ _)).trans
      (Activity.bind_assoc _ _ _)).trans (congrArg (Activity.bind _) (funext fun r => ?_))
    cases r <;> rfl

end Call

/-! ### What goes on is honest -/

section Finding

variable {maps : String → Mapper → Prop} {past : History maps}

theorem plain_duties (call : Call) : ∀ d ∈ call.duties, (provenance maps).Plain d.request := by
  intro d hd
  unfold Call.duties at hd
  split at hd
  · exact absurd hd List.not_mem_nil
  · rw [List.mem_singleton.mp hd]
    exact fun _ => trivial

/-- An attempt vouches for the handle that it finds. -/
theorem finds_attempt (hfind : call.terminal = .waitHandle) (hsuits : Suits maps past.page call.locator) :
    Honest (provenance maps)
      (fun now r => ∀ h, r = .ok (some h) → now.Vouches call.locator past.record.length h) past
      (Activity.protect call.duties (call.attempt patience began)) := by
  have hattempt : call.attempt patience began = (do
      let handle ← call.locator.resolve (browser patience) (call.interrupt began)
      return some handle : side.Action (Option Handle)).outcome := by
    unfold Call.attempt
    rw [hfind]
    rfl
  rw [hattempt]
  refine Honest.protect ?_ (plain_duties call)
  refine Honest.andThen (finds_resolve (call.interrupt began) call.locator le_rfl hsuits)
    (fun now _ found hv => ?_) ?_
  · rintro later hlater h ⟨⟩
    exact (hv found rfl).later hlater
  · rintro now e h ⟨⟩

theorem truthful_bracing (call : Call) :
    Truthful past (Activity.protect call.duties (call.bracing began).outcome) := by
  refine Honest.protect (truthful_of_modest ?_) (plain_duties call)
  refine Asking.bind (modest_interruption _) fun interruption => ?_
  cases interruption with
  | some e => exact asking_throw e
  | none => exact modest_pause _

/-- What follows the attempts is the handle that they have found. -/
theorem honest_closing (hfind : call.terminal = .waitHandle) (r : Except Error (Option Handle)) (h : Handle) :
    Honest (provenance maps) (fun _ given => given = .ok (some h) → r = .ok (some h)) past
      (call.closing patience r) := by
  have hconclude : ∀ now : History maps, Honest (provenance maps)
      (fun _ given => given = .ok (some h) → r = .ok (some h)) now (concluding patience call.terminal r) := by
    intro now
    rw [hfind]
    rcases r with e | _ | found
    · exact fun _ _ => id
    · rintro _ - ⟨⟩
    · exact fun _ _ => id
  unfold Call.closing
  split
  · exact hconclude past
  · exact honest_plain (fun _ => trivial) fun now _ _ => hconclude now

/-- In a run of the call an attempt begins in one timeline, and it ends in another with such an outcome. -/
structure Call.Attempt (patience : Nat) (call : Call) (began : Nat)
    (run : Run side.signature (recording patience).World (Except Error (Option Handle)))
    (r : Except Error (Option Handle)) (tl last : Timeline side.signature (recording patience).World) : Prop where
  begins : ∃ turns left, run.finish (recording patience) turns =
    .start (recording patience) (call.looping patience began (left + 1)) tl none
  ends : ∃ turns, (Run.start (recording patience)
    (Activity.protect call.duties (call.attempt patience began)) tl none).finish (recording patience) turns =
      ⟨.done r, last, none⟩

/-- One attempt of an operation that finds a handle finds it, and vouches for it. -/
theorem exists_attempt (hfind : call.terminal = .waitHandle) (hsuits : Suits maps past.page call.locator)
    (hborne : Borne (provenance maps) (Shows patience) past tl) {turns : Nat}
    (hend : (Run.start (recording patience) (call.looping patience began fuel) tl none).finish
      (recording patience) turns = ⟨.done (.ok (some h)), last, none⟩) :
    ∃ first mid, call.Attempt patience began
        (.start (recording patience) (call.looping patience began fuel) tl none) (.ok (some h)) first mid ∧
      ∃ earlier later now, Shows patience earlier first ∧ Shows patience later mid ∧
        Borne (provenance maps) (Shows patience) now last ∧ earlier ≤ later ∧ later ≤ now ∧
        later.Vouches call.locator earlier.record.length h := by
  induction fuel generalizing past tl turns with
  | zero =>
    obtain ⟨_, r, after, hended, -⟩ := Run.finish_bind_done hend
    have hnever : Honest (provenance maps) (fun _ _ => False) past (Activity.protect call.duties
        (call.locator.attempts (browser patience) call.terminal.operation (call.interrupt began) 0).outcome) :=
      Honest.protect honest_never (plain_duties call)
    obtain ⟨-, -, -, hfalse⟩ := hborne.ends bears_provenance hnever hended
    exact absurd hfalse id
  | succ fuel ih =>
    rw [Call.looping_eq] at hend ⊢
    obtain ⟨first, r, mid, hattempt, hgoes, more, hrest⟩ := Run.finish_bind_done hend
    obtain ⟨later, hlater, hmid, hvouches⟩ :=
      hborne.ends bears_provenance (finds_attempt hfind hsuits) hattempt
    cases r with
    | ok r =>
      obtain ⟨now, hnow, hlast, hsame⟩ :=
        hmid.ends bears_provenance (honest_closing hfind (.ok r) h) hrest
      rw [hsame rfl] at hattempt hvouches
      refine ⟨tl, mid, ⟨⟨0, fuel, ?_⟩, ⟨first, hattempt⟩⟩, past, later, now, hborne.shows, hmid.shows,
        hlast, hlater, hnow, hvouches h rfl⟩
      rw [Call.looping_eq]
      rfl
    | error e =>
      obtain ⟨second, braced, after, hbraced, hgoes', more', hrest'⟩ := Run.finish_bind_done hrest
      obtain ⟨resumed, hresumed, hafter, -⟩ :=
        hmid.ends bears_provenance (truthful_bracing call) hbraced
      cases braced with
      | ok u =>
        have hsuits' := hsuits.later (hlater.trans hresumed).page.toKnows
        obtain ⟨tl', mid', ⟨⟨turns', left, hbegins⟩, hends⟩, hvouched⟩ := ih hsuits' hafter hrest'
        refine ⟨tl', mid', ⟨⟨first + (second + turns'), left, ?_⟩, hends⟩, hvouched⟩
        rw [hgoes]
        exact (hgoes' turns').trans hbegins
      | error e' =>
        obtain ⟨-, -, -, hsame⟩ := hafter.ends bears_provenance (honest_closing hfind (.error e') h) hrest'
        cases hsame rfl

end Finding

/-! ### Whole runs -/

section Whole

variable (s : Scene) (call)

/-- The functions of elements that the page of a scene has, and those that come in. -/
def Scene.Maps (s : Scene) (script : String) (mapper : Mapper) : Prop :=
  s.page.mappers.lookup script = some mapper ∨ s.Expects (.onMapper script mapper)

theorem Scene.within_maps (s : Scene) : s.page.Within s.Maps := fun _ _ h => .inl h

/-- A change that is expected brings in no other functions. -/
theorem Scene.Expects.within {s : Scene} {c : Change} (h : s.Expects c) : (Query.change c).Within s.Maps := by
  cases c with
  | onMapper script mapper => exact .inr h
  | _ => trivial

/-- Before a call nothing was asked, and no race was begun. -/
def Scene.history (s : Scene) : History s.Maps := ⟨s.page, [], [], s.within_maps, nofun⟩

theorem tokens_recorded (patience : Nat) : (s.recorded patience).tokens = ⟨#[⟨[], s.cancelled⟩]⟩ := by
  unfold Scene.recorded Scene.timeline
  rw [Timeline.forkAll_eq]
  rfl

theorem shows_recorded : Shows patience s.history (s.recorded patience) := by
  have hworld : (s.timeline patience).world = s.page := Activity.Timeline.forkAll_world _ _
  refine ⟨hworld, rfl, inboxes_recorded s, fun k m hm => ?_⟩
  rw [messages_of_traffic (traffic_recorded_scene s k)] at hm
  exact absurd hm List.not_mem_nil

theorem borne_recorded : Borne (provenance s.Maps) (Shows patience) s.history (s.recorded patience) := by
  refine ⟨shows_recorded s, fun p hp => ?_⟩
  rw [bag_recorded] at hp
  obtain ⟨job, hjob, rfl⟩ := List.mem_map.mp (Multiset.mem_coe.mp hp)
  obtain ⟨event, hevent, rfl⟩ := List.mem_map.mp hjob
  cases event with
  | change timed =>
    have hexpected : s.Expects timed.change := ⟨timed.time, hevent⟩
    exact truthful_start patience s.history hexpected.within
  | cancel time => exact truthful_start patience s.history trivial

variable {s}

/-- The deadline that is set at the beginning does not tell anything. -/
theorem borne_launched {maps : String → Mapper → Prop} {past : History maps} (h : Borne (provenance maps) (Shows patience) past tl)
    (tokens : Activity.Tokens) : Borne (provenance maps) (Shows patience) past (call.launched tokens tl) := by
  unfold Call.launched
  split
  · exact ⟨bears_provenance.others h.shows rfl rfl, h.tasks⟩
  · refine ⟨bears_provenance.others h.shows rfl rfl, fun p hp => ?_⟩
    obtain ⟨task, htask, rfl⟩ := List.mem_map.mp (Multiset.mem_coe.mp hp)
    rcases List.mem_append.mp htask with hold | hnew
    · exact h.tasks _ (Multiset.mem_coe.mpr (List.mem_map_of_mem hold))
    · have hexpire : Truthful past ((backend patience).start (.expire (call.interrupt tl.clock) 3)) :=
        truthful_start patience past trivial
      rw [List.mem_singleton.mp hnew]
      exact hexpire

/-- What goes on when an operation has ended adds to what has happened. -/
theorem shows_settle {maps : String → Mapper → Prop} {past : History maps} (h : Borne (provenance maps) (Shows patience) past tl) (budget : Nat) :
    ∃ now ≥ past, Shows patience now (tl.settle (recording patience) budget) := by
  have hidle : Run.Borne (provenance maps) (Shows patience) (fun _ _ => True) past
      (⟨.done (), tl, none⟩ : Run side.signature (recording patience).World Unit) := ⟨h, fun _ _ => trivial⟩
  obtain ⟨now, hnow, hlast⟩ := hidle.finish bears_provenance budget
  exact ⟨now, hnow, hlast.timeline.shows⟩

/-- What an operation hands on, its locator admits by what the page was asked in the course of the attempt
that has found it. -/
theorem admits_of_run (budget : Nat) (call : Call) (s : Scene) (hfind : call.terminal = .waitHandle)
    (hsuits : Suits s.Maps s.page call.locator) {h : Handle}
    {after : Timeline side.signature (recording patience).World}
    (hrun : (s.recorded patience).run (recording patience) budget (call.activity (browser patience)) =
      (some (.ok (some h)), after)) :
    ∃ first last, call.Attempt patience s.clock
        (.start (recording patience) (call.activity (browser patience)) (s.recorded patience) none)
        (.ok (some h)) first last ∧
      first.world.2 <+: last.world.2 ∧ last.world.2 <+: after.world.2 ∧
      Admits call.locator (last.world.2.drop first.world.2.length) h.target := by
  have hclock : (s.recorded patience).clock = s.clock :=
    Activity.Timeline.forkAll_clock (B := backend patience) _ s.stage
  obtain ⟨tokens, -, hstart⟩ := Call.advance_launched (tokens_recorded s patience)
  rw [hclock] at hstart
  have hlooping : (Run.start (recording patience) (call.activity (browser patience)) (s.recorded patience) none :
        Run side.signature (recording patience).World (Except Error (Option Handle))) =
      .start (recording patience) (call.looping patience s.clock (turns patience call.timeout retryDelay))
        (call.launched tokens (s.recorded patience)) none :=
    congrArg (fun x => (⟨x.1, x.2, none⟩ : Run _ _ (Except Error (Option Handle)))) hstart
  -- the operation has ended in some turn, and what was left to do was done after it
  obtain ⟨ended, hend, rfl⟩ := Activity.Timeline.exists_finish_of_run hrun
  have hlive : h.id ∈ Page.liveIds ended.world.1 := by
    have hforget := Run.finish_forget budget (Run.start (recording patience) (call.activity (browser patience))
      (s.recorded patience) none)
    rw [hend, ← Run.start_forget] at hforget
    exact live_of_done hforget
  have hdone := (congrArg (Run.finish (recording patience) budget) hlooping).symm.trans hend
  rw [hlooping]
  obtain ⟨first, last, hattempt, earlier, later, now, hfirst, hlast, hended, hle, hle', hvouches⟩ :=
    exists_attempt hfind hsuits (borne_launched call (borne_recorded s) tokens) hdone
  obtain ⟨final, hfinal, hsettled⟩ := shows_settle hended budget
  refine ⟨first, last, hattempt, ?_, ?_, ?_⟩
  · rw [hfirst.record, hlast.record]
    exact hle.record
  · rw [hlast.record, hsettled.record]
    exact (hle'.trans hfinal).record
  · rw [hfirst.record, hlast.record]
    refine hvouches.admits.resolve_left fun hreleased => ?_
    have hgone := hle'.page.released h hvouches.made hreleased
    rw [← hended.shows.page] at hgone
    exact absurd hgone (by simp [Page.isReleased, Page.mem_liveIds.mp hlive])

/-- A page with an element for an input, which is ready when it is asked for the fourth time.  The form of
an input can be told only later. -/
def choosyScene : Scene where
  page := { Page.ofElements #[.ofKind .typeableInput, .ofKind .unknown] with
    predicates := [("e => e.ready", ⟨fun calls _ => 4 ≤ calls, 0⟩)] }
  clock := 0
  cancelled := false
  events := [.change ⟨0, .add "input" 0⟩, .change ⟨50, .onMapper "e => e.form" fun _ _ => .element 1⟩]

/-- To find the form of an input that is ready soon. -/
def choosyCall : Call where
  locator := .mapped .default (.filtered { Locator.Options.default with timeout := 15 }
    (.node .default () "input") "e => e.ready") "e => e.form"
  terminal := .waitHandle
  signalled := false

/-- The form is looked for. -/
def choosyRun : Option (Except Error (Option Handle)) × Timeline side.signature (recording 0).World :=
  (choosyScene.recorded 0).run (recording 0) 40 (choosyCall.activity (browser 0))

/-- The first attempt fails, and the second finds the form of an element that is ready then. -/
theorem admits_of_choosyRun :
    choosyRun.1 = some (.ok (some ⟨3, .element 1⟩)) ∧ choosyRun.2.clock = 130 ∧
      ∃ asked, asked <:+: choosyRun.2.world.2 ∧ Admits choosyCall.locator asked (.element 1) := by
  have houtcome : choosyRun.1 = some (.ok (some ⟨3, .element 1⟩)) := by cbv
  have hsuits : Suits choosyScene.Maps choosyScene.page choosyCall.locator :=
    .mapped _ _ (.filtered _ (.node _ _) (List.mem_singleton_self _) (elemental_node _))
  obtain ⟨first, last, -, -, hlast, hadmits⟩ :=
    admits_of_run 40 choosyCall choosyScene rfl hsuits (Prod.ext houtcome rfl)
  exact ⟨houtcome, by decide +kernel, _, (List.drop_suffix _ _).isInfix.trans hlast.isInfix, hadmits⟩

end Whole

end Wayfind.Simulation
