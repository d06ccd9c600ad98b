/-
What happens to a page from outside.

Operations ask a great deal of the page, but no operation changes it from outside, nor does
anybody that it sets to work (`inner_call`).  So whatever is started in a scene, and whoever is
dropped there, nothing changes the page from outside but the events of the scene (`tames_scene`).
-/
import Wayfind.Proofs.Simulation.Acting
import Wayfind.Proofs.Simulation.Scene

namespace Wayfind.Simulation

open Activity (Token Request Duty Asks Tame Tames Timeline asks_perform)
open PageSide (Action releaseDuty)

variable {patience : Nat} {α β : Type}

/-! ### Operations -/

/-- The request changes nothing from outside, and sets nobody to do so. -/
def Inner : Request side.signature → Prop
  | .query q => ∀ c, q ≠ Query.change c
  | .fork job => Job.isChore job = false
  | _ => True

theorem Below.inner {rank : Nat} {r : Request side.signature} (h : Below rank r) : Inner r := by
  cases r with
  | query q => exact Query.ne_change_of_looks h
  | fork job => exact h.2
  | _ => trivial

theorem Asking.inner {a : side.Action α} (ha : Asking Modest a) : Asking Inner a :=
  ha.mono fun _ h => (h.below 0).inner

theorem inner_guard (i : Interrupt) {a : side.Action α} (ha : Asking Inner a) : Asking Inner (i.guard a) := by
  have hfail : Asking Inner (i.fail : side.Action α) := (modest_error i).inner.bind fun e => asking_throw e
  refine Asks.bind (asks_perform trivial) fun cancelled => ?_
  split
  · exact hfail
  · exact Asks.guard ha hfail i.token

theorem inner_releaseDuty (h : Handle) : ∀ d ∈ [releaseDuty (B := side) h], Inner d.request := by
  intro d hd
  rw [List.mem_singleton.mp hd]
  rfl

variable (patience) in
/-- To release a handle, where it is released also when the release is dropped. -/
theorem inner_release (h : Handle) : Asking Inner (((realm patience).releaseIn h).protect [releaseDuty h]) :=
  (modest_releaseIn h).inner.protect (inner_releaseDuty h)

section Acting

variable (o : Locator.Options) (h : Handle)

theorem inner_evaluate (script : String) (args : List (Argument Handle)) :
    Asking Inner ((realm patience).evaluate h script args) :=
  asking_asked (q := .evaluate h script args) nofun id

theorem inner_fill (value : String) : Asking Inner ((realm patience).fill h value) := by
  have htype (text : String) : Asking Inner ((realm patience).typeText h text) :=
    asking_asked (q := .typeText h text) nofun id
  unfold Realm.fill
  refine (inner_evaluate h _ []).bind fun kind => ?_
  split
  · exact asking_throw _
  · exact Asking.bind (asking_asked (q := .select h [value]) nofun id) fun _ => asking_pure ()
  iterate 2
    refine (inner_evaluate h _ []).bind fun current => ?_
    dsimp only
    split
    · exact (inner_evaluate h _ []).bind fun _ => htype _
    · exact htype _
  · refine Asking.bind (asking_asked (q := .focus h) nofun id) fun _ => ?_
    exact (inner_evaluate h _ _).bind fun _ => asking_pure ()
  · exact asking_throw _

theorem inner_carryOut (op : Operation) : Asking Inner (carryOut patience h op) := by
  refine Asking.bind (asking_perform trivial) fun _ => ?_
  cases op with
  | find => exact asking_pure ()
  | click options => exact asking_asked (q := .click h options) nofun id
  | hover => exact asking_asked (q := .hover h) nofun id
  | scroll top left => exact (inner_evaluate h _ _).bind fun _ => asking_pure ()
  | fill value => exact inner_fill h value

theorem inner_act (op : Operation) : Asking Inner (Locator.act (realm patience) o h op) := by
  rw [act_eq]
  refine (asking_inViewport o nofun nofun).bind fun _ => (asking_stable o nofun).bind fun _ => ?_
  dsimp only
  split
  · exact (asking_enabled o nofun).bind fun _ => inner_carryOut h op
  · exact inner_carryOut h op

end Acting

section Operations

variable (l : Locator Unit) (op : Operation)

theorem inner_resolve (i : Interrupt) : Asking Inner (l.resolve (browser patience) i) :=
  (below_resolve i l Nat.le.refl).mono fun _ h => h.inner

theorem inner_attempt (i : Interrupt) : Asking Inner (l.attempt (browser patience) op i) := by
  refine (inner_resolve l i).bind fun handle => ?_
  have hact : Asking Inner (do
      let outcome ← ((i.guard (Locator.act (realm patience) l.options handle op)).protect
        [releaseDuty handle]).attempt
      ((realm patience).releaseIn handle).protect [releaseDuty handle]
      Action.ofExcept outcome
      return (none : Option Handle)) := by
    refine Asking.bind ((inner_guard i (inner_act l.options handle op)).protect
      (inner_releaseDuty handle)).attempt fun outcome => ?_
    exact (inner_release patience handle).bind fun _ => (asking_ofExcept outcome).bind fun _ => asking_pure none
  cases op with
  | find => exact asking_pure _
  | click | hover | scroll | fill => exact hact

theorem inner_attempts (i : Interrupt) (fuel : Nat) :
    Asking Inner (l.attempts (browser patience) op i fuel) := by
  induction fuel with
  | zero => exact modest_never.inner
  | succ fuel ih =>
    refine Asking.bind (inner_attempt l op i).attempt fun outcome => ?_
    cases outcome with
    | ok result => exact asking_pure result
    | error e =>
      refine (modest_interruption i).inner.bind fun interruption => ?_
      cases interruption with
      | some e => exact asking_throw e
      | none => exact (modest_pause i).inner.bind fun _ => ih

theorem inner_within (timeout : Nat) (signal : Option Token) {body : Interrupt → side.Action α}
    (hbody : ∀ i, Asking Inner (body i)) : Asking Inner (Interrupt.within timeout signal body) := by
  refine Asking.bind (asking_perform trivial) fun token => Asking.bind (asking_perform trivial) fun expired => ?_
  split
  · exact hbody _
  · refine Asking.bind modest_clock.inner fun now => Asking.bind (asking_perform trivial) fun ended => ?_
    have hexpire : Inner (.fork (.expire ⟨token, expired, some (now + timeout), timeout⟩ ended)) := rfl
    have hcancel : ∀ d ∈ ([.cancel ended] : List (Duty side.signature)), Inner d.request := by
      intro d hd
      rw [List.mem_singleton.mp hd]
      trivial
    refine Asking.bind (asking_perform hexpire) fun _ =>
      Asking.bind ((hbody _).protect hcancel).attempt fun outcome => ?_
    exact Asking.bind (asking_perform trivial) fun _ => asking_ofExcept outcome

theorem inner_run (signal : Option Token) : Asking Inner (l.run (browser patience) op signal) :=
  inner_within _ signal fun i => inner_attempts l op i _

theorem inner_perform (signal : Option Token) : Asking Inner (l.perform (browser patience) op signal) :=
  (inner_run l op signal).bind fun _ => asking_pure ()

theorem inner_readOut (handle : Handle) :
    Asking Inner (Keeping.Terminal.readOut (browser patience) handle) := by
  have hread : Asking Inner ((realm patience).jsonValue handle) :=
    asking_asked (q := .jsonValue handle) nofun id
  refine Asking.bind (hread.protect (inner_releaseDuty handle)).attempt fun value => ?_
  exact (inner_release patience handle).bind fun _ => asking_ofExcept value

/-- What an operation does with what its attempts have found. -/
theorem inner_conclusion (t : Keeping.Terminal) (found : Option Handle) :
    Asking Inner (t.conclusion (browser patience) found) := by
  cases t with
  | waitAs reader =>
    cases found with
    | none => exact asking_throw _
    | some handle =>
      refine (inner_readOut handle).bind fun doc => ?_
      unfold Keeping.Terminal.accept
      split
      · exact asking_pure none
      · exact asking_throw _
  | waitHandle =>
    cases found with
    | none => exact asking_throw _
    | some handle => exact asking_pure _
  | waitValue =>
    cases found with
    | none => exact asking_throw _
    | some handle => exact (inner_readOut handle).bind fun _ => asking_pure none
  | wait =>
    cases found with
    | none => exact asking_throw _
    | some handle => exact (modest_releaseIn handle).inner.bind fun _ => asking_pure none
  | click | hover | scroll | fill => exact asking_pure none

/-- No operation changes the page from outside, and none sets anybody to do so. -/
theorem inner_call (call : Call) : Asks Inner (call.activity (browser patience)) := by
  have haction : Asking Inner (call.terminal.action (browser patience) call.locator call.signal) := by
    rw [Keeping.Terminal.action_eq]
    exact (inner_run call.locator call.terminal.operation call.signal).bind fun found =>
      inner_conclusion call.terminal found
  exact haction

end Operations

/-! ### Scenes -/

/-- The page may change so from outside, at some time. -/
def Scene.Expects (s : Scene) (c : Change) : Prop := ∃ time, .change ⟨time, c⟩ ∈ s.events

/-- Nothing is asked for from outside but the events of the scene. -/
def Scene.Permits (s : Scene) : Request side.signature → Prop
  | .query q => ∀ c, q = Query.change c → s.Expects c
  | .fork job => ∀ timed : Timed, job = .chore timed → s.Expects timed.change
  | _ => True

section Scenes

variable {s : Scene} {mild : Query → Prop}

theorem Inner.permits {r : Request side.signature} (h : Inner r) : s.Permits r := by
  cases r with
  | query q => exact fun c hc => absurd hc (h c)
  | fork job =>
    rintro timed rfl
    exact absurd h nofun
  | _ => trivial

/-- A job is tame when it makes no change from outside happen, or one that is expected. -/
theorem tame_start (hlooks : ∀ q : Query, q.looks = true → mild q) (hchange : ∀ c, s.Expects c → mild (.change c))
    {job : Job Handle Unit Timed} (hjob : ∀ timed, job = .chore timed → s.Expects timed.change) :
    Tame s.Permits mild ((backend patience).start job) := by
  rcases chore_or_not job with ⟨timed, rfl⟩ | hinner
  · have hexpected := hjob timed rfl
    exact ⟨asks_chore trivial fun c hc => Query.change.inj hc ▸ hexpected,
      asks_chore nofun fun q hq => Request.query.inj hq ▸ hchange _ hexpected⟩
  · refine ⟨(asks_start hinner).mono fun _ h => h.inner.permits, (asks_start hinner).mono fun r h q hq => ?_⟩
    rw [hq] at h
    exact hlooks q h

/-- In a scene nobody sets anybody to work but tame activities. -/
theorem tames_scene (hlooks : ∀ q : Query, q.looks = true → mild q)
    (hchange : ∀ c, s.Expects c → mild (.change c)) : Tames (backend patience) s.Permits mild := by
  intro tl r hr job hjob
  refine tame_start hlooks hchange fun timed htimed => ?_
  cases r with
  | fork job' =>
    rw [List.mem_singleton.mp hjob] at htimed
    exact hr timed htimed
  | close inbox =>
    obtain ⟨m, -, hm⟩ := List.mem_flatMap.mp hjob
    cases m with
    | ok handle =>
      rw [List.mem_singleton.mp hm] at htimed
      cases htimed
    | error e => exact absurd hm List.not_mem_nil
  | _ => exact absurd hjob List.not_mem_nil

/-- The background of a scene is tame at first. -/
theorem tame_timeline (hlooks : ∀ q : Query, q.looks = true → mild q)
    (hchange : ∀ c, s.Expects c → mild (.change c)) :
    Timeline.Tame (B := backend patience) s.Permits mild (s.timeline patience) := by
  refine tame_scene s fun event hevent => tame_start hlooks hchange fun timed htimed => ?_
  cases event with
  | change timed' =>
    obtain rfl := Job.chore.inj htimed
    exact ⟨timed'.time, hevent⟩
  | cancel time => cases htimed

end Scenes

end Wayfind.Simulation
