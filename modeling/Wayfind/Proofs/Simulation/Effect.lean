/-
An action takes effect once.

An operation may attempt any number of times, each time with another handle.  What an
attempt does it does in one go (`does_act`); before and after, the operation only waits and
looks, and so does everything beside it.  So `Quiet` holds as long as it has not succeeded,
whatever happens on the page, and the attempt that succeeds is the only one that has done
anything (`steady_attempts`).

The record of a run then says how it ended (`Achieves`), and the page agrees: what the
elements have entered in their own records is what the run did (`Accounted`).
-/
import Mathlib
import Wayfind.Proofs.Simulation.Acting
import Wayfind.Proofs.Simulation.Scene

namespace Wayfind.Simulation

open Activity (Moment Steady KeptBy Innocent Request Duty Timeline)
open PageSide (Action releaseDuty)

variable {patience : Nat} {α β : Type}

/-- A page, and what it was asked so far. -/
abbrev Chronicle : Type := Page × List PageMoment

/-- Nothing was done to any element so far. -/
def Quiet (w : Chronicle) : Prop := deeds w.2 = []

/-- How an operation ends: with its effect, done once and in one go to one fit element, or without
having done anything. -/
def Achieves (o : Locator.Options) (op : Operation) (r : Except Error α)
    (record : List PageMoment) : Prop :=
  match r with
  | .ok _ => ∃ before checks acting rest h p id ds,
      record = before ++ (checks ++ acting) ++ rest ∧ deeds record = ds.map (Prod.mk id) ∧
        Performed o op h checks acting p id ds
  | .error _ => deeds record = []

/-- What the elements of the page have entered in their records is what was done since `start`. -/
def Accounted (start : Page) (w : Chronicle) : Prop :=
  ∀ id, (w.1.element id).record = (start.element id).record + deedsOn id (deeds w.2)

/-! ### What others keep -/

section Kept

variable {o : Locator.Options} {op : Operation} {r : Except Error α} {record : List PageMoment}

theorem Achieves.append (h : Achieves o op r record) {more : List PageMoment}
    (hmore : deeds more = []) : Achieves o op r (record ++ more) := by
  cases r with
  | error e => exact quiet_append h hmore
  | ok v =>
    obtain ⟨before, checks, acting, rest, handle, p, id, ds, rfl, hdeeds, hperformed⟩ := h
    refine ⟨before, checks, acting, rest ++ more, handle, p, id, ds, ?_, ?_, hperformed⟩
    · rw [List.append_assoc _ rest more]
    · rw [deeds_append, hmore, List.append_nil, hdeeds]

theorem kept_quiet : KeptBy (backend patience).recorded Query.Gentle Quiet :=
  fun _ w hq hw => quiet_append hw (hq.deeds w.1)

variable (patience) in
theorem kept_achieves (o : Locator.Options) (op : Operation) (r : Except Error α) :
    KeptBy (backend patience).recorded Query.Gentle fun w => Achieves o op r w.2 :=
  fun _ w hq hw => Achieves.append hw (hq.deeds w.1)

theorem Accounted.ask {start p : Page} {record : List PageMoment} (h : Accounted start (p, record))
    (q : Query) : Accounted start ((p.answer q).2, record ++ [⟨p, q⟩]) := by
  intro id
  have hsofar : (p.element id).record = (start.element id).record + deedsOn id (deeds record) := h id
  rw [record_answer, hsofar, add_assoc, deeds_append, deedsOn_append, deeds_cons, deeds_nil,
    List.append_nil]

theorem kept_accounted (start : Page) :
    KeptBy (backend patience).recorded (fun _ => True) (Accounted start) :=
  fun q _ _ hw => hw.ask q

/-- An attempt that began after a quiet time leaves what it has come to. -/
theorem Concludes.achieves {before steps : List PageMoment} {h : Handle}
    (hc : Concludes o op h r steps) (hquiet : deeds before = []) : Achieves o op r (before ++ steps) := by
  cases r with
  | error e => exact quiet_append hquiet hc
  | ok v =>
    obtain ⟨checks, acting, p, id, ds, rfl, hperformed⟩ := hc
    refine ⟨before, checks, acting, [], h, p, id, ds, (List.append_nil _).symm, ?_, hperformed⟩
    rw [deeds_append, deeds_append, hquiet, hperformed.quiet, hperformed.done]
    rfl

end Kept

/-! ### The attempts -/

section Attempts

variable {Q : Except Error β → Chronicle → Prop} {w : Chronicle}

/-- The action, begun in such a state, ends as it should; while it waits nothing has been done. -/
def Proceeds (patience : Nat) (Q : Except Error α → Chronicle → Prop) (a : side.Action α)
    (w : Chronicle) : Prop :=
  Steady (backend patience).recorded Quiet Q a.outcome w

theorem Proceeds.mono {Q Q' : Except Error α → Chronicle → Prop} {a : side.Action α}
    (h : Proceeds patience Q a w) (hQ : ∀ r w, Q r w → Q' r w) : Proceeds patience Q' a w :=
  Steady.mono h hQ

theorem Proceeds.andThen {R : Except Error α → Chronicle → Prop} {a : side.Action α}
    {f : α → side.Action β} (ha : Proceeds patience R a w)
    (hok : ∀ v w, R (.ok v) w → Proceeds patience Q (f v) w)
    (herror : ∀ e w, R (.error e) w → Q (.error e) w) : Proceeds patience Q (a >>= f) w := by
  unfold Proceeds
  rw [outcome_bind]
  refine Activity.steady_bind.mpr (Steady.mono ha fun r w hr => ?_)
  cases r with
  | ok v => exact hok v w hr
  | error e => exact herror e w hr

/-- An action whose failure is looked at. -/
theorem Proceeds.attempt {R : Except Error α → Chronicle → Prop} {a : side.Action α}
    {f : Except Error α → side.Action β} (ha : Proceeds patience R a w)
    (h : ∀ r w, R r w → Proceeds patience Q (f r) w) : Proceeds patience Q (a.attempt >>= f) w := by
  unfold Proceeds
  rw [Action.attempt, outcome_lift_bind]
  exact Activity.steady_bind.mpr (Steady.mono ha h)

theorem Proceeds.protect {Q : Except Error α → Chronicle → Prop} {a : side.Action α}
    (ha : Proceeds patience Q a w) (duties : List (Duty side.signature)) :
    Proceeds patience Q (a.protect duties) w :=
  (Activity.steady_protect duties).mpr ha

theorem proceeds_ofExcept {Q : Except Error α → Chronicle → Prop} {r : Except Error α} (h : Q r w) :
    Proceeds patience Q (Action.ofExcept r) w := by
  unfold Proceeds
  rw [outcome_ofExcept]
  exact h

/-- What does nothing leaves everything quiet. -/
theorem Gentle.proceeds {a : side.Action α} (ha : Gentle a) (hw : Quiet w) :
    Proceeds patience (fun _ => Quiet) a w :=
  Innocent.steady ha kept_quiet hw

/-- A request other than to the page. -/
theorem proceeds_perform {r : Request side.signature} {f : r.Answer → side.Action β}
    (hquery : ∀ q, r ≠ .query q) (hwaits : r.waits = false)
    (h : ∀ a, Proceeds patience Q (f a) w) : Proceeds patience Q (Action.perform r >>= f) w := by
  unfold Proceeds
  rw [Action.perform, outcome_lift_bind]
  refine Activity.steady_perform hwaits fun a v hv => ?_
  have hsame : v = w := by
    cases r with
    | query q => exact absurd rfl (hquery q)
    | _ => exact hv
  rw [hsame]
  exact h a

/-- A handle is released, and nothing else happens. -/
theorem proceeds_releaseIn {h : Handle} {Q : Except Error Unit → Chronicle → Prop}
    (hQ : Q (.ok ()) ((w.1.answer (.release h)).2, w.2 ++ [⟨w.1, .release h⟩])) :
    Proceeds patience Q ((realm patience).releaseIn h) w := by
  refine ⟨?_, nofun⟩
  rintro a v ⟨-, rfl⟩
  exact hQ

/-- To say why an operation was interrupted is an error. -/
theorem proceeds_fail (i : Interrupt) (hw : Quiet w) :
    Proceeds patience (fun r w => (∃ e, r = .error e) ∧ Quiet w) (i.fail : side.Action α) w :=
  ((modest_error i).gentle.proceeds hw).andThen (fun e _ hw => ⟨⟨e, rfl⟩, hw⟩) fun e _ hw => ⟨⟨e, rfl⟩, hw⟩

variable (o : Locator.Options) {op : Operation} (hop : op ≠ .find)

include hop

/-- Under a token an attempt with a handle ends as without, or has done nothing. -/
theorem proceeds_act (i : Interrupt) (h : Handle) (hw : Quiet w) :
    Proceeds patience (fun r w => Achieves o op r w.2)
      (i.guard (Locator.act (realm patience) o h op)) w := by
  have hhalt : ∀ w, Quiet w → Proceeds patience (fun r w => Achieves o op r w.2)
      (i.fail : side.Action Unit) w := by
    intro w hw
    refine (proceeds_fail i hw).mono ?_
    rintro r w ⟨⟨e, rfl⟩, hw⟩
    exact hw
  have hact : Proceeds patience (fun r w => Achieves o op r w.2)
      (Locator.act (realm patience) o h op) w := by
    have hdoes : Proceeds patience (fun r w => Achieves o op r w.2)
        (Locator.act (realm patience) o h op) (w.1, w.2 ++ []) :=
      (does_act o w.1 hop).steady w.2 fun r steps p hc => hc.achieves hw
    rw [List.append_nil] at hdoes
    exact hdoes
  refine Activity.steady_perform rfl fun (cancelled : Bool) v hv => ?_
  obtain rfl : v = w := hv
  cases cancelled with
  | true => exact hhalt v hw
  | false => exact Steady.guard hact hhalt i.token

/-- An attempt has done what the operation is for, or nothing. -/
theorem proceeds_attempt (l : Locator side.Page) (i : Interrupt) (hw : Quiet w) :
    Proceeds patience (fun r w => Achieves l.options op r w.2)
      (l.attempt (browser patience) op i) w := by
  refine ((gentle_resolve i l).proceeds hw).andThen ?_ fun e w hw => hw
  intro h w hw
  have hrest : Proceeds patience (fun r w => Achieves l.options op r w.2) (do
      let outcome ← ((i.guard (Locator.act (realm patience) l.options h op)).protect
        [releaseDuty h]).attempt
      ((realm patience).releaseIn h).protect [releaseDuty h]
      Action.ofExcept outcome
      return (none : Option Handle)) w := by
    refine ((proceeds_act l.options hop i h hw).protect _).attempt fun outcome w hw => ?_
    have hreleased : Proceeds patience (fun r w => r = .ok () ∧ Achieves l.options op outcome w.2)
        (((realm patience).releaseIn h).protect [releaseDuty h]) w :=
      (proceeds_releaseIn ⟨rfl, kept_achieves patience _ _ _ (.release h) w
        (fun _ => rfl) hw⟩).protect _
    refine hreleased.andThen ?_ fun e w hr => absurd hr.1 nofun
    rintro ⟨⟩ w ⟨-, hw⟩
    exact (proceeds_ofExcept (Q := fun r w => Achieves l.options op r w.2) hw).andThen
      (fun _ w hr => hr) fun e w hr => hr
  cases op with
  | find => exact absurd rfl hop
  | click | hover | scroll | fill => exact hrest

/-- However often it is attempted, the operation is done once, or not at all. -/
theorem proceeds_attempts (l : Locator side.Page) (i : Interrupt) (fuel : Nat) (hw : Quiet w) :
    Proceeds patience (fun r w => Achieves l.options op r w.2)
      (l.attempts (browser patience) op i fuel) w := by
  induction fuel generalizing w with
  | zero => exact ⟨fun e => Empty.elim e, fun _ => ⟨hw, fun v hv => ⟨fun e => Empty.elim e, nofun⟩⟩⟩
  | succ fuel ih =>
    refine (proceeds_attempt hop l i hw).attempt fun outcome w hw => ?_
    cases outcome with
    | ok result => exact hw
    | error e =>
      refine ((modest_interruption i).gentle.proceeds hw).andThen ?_ fun e w hw => hw
      intro interruption w hw
      cases interruption with
      | some e => exact hw
      | none => exact ((modest_pause i).gentle.proceeds hw).andThen (fun _ w hw => ih hw) fun e w hw => hw

/-- An operation is done once, or ends with an error and has done nothing. -/
theorem proceeds_run (l : Locator side.Page) (signal : Option Activity.Token) (hw : Quiet w) :
    Proceeds patience (fun r w => Achieves l.options op r w.2)
      (l.run (browser patience) op signal) w := by
  unfold Locator.run Interrupt.within
  refine proceeds_perform nofun rfl fun token => proceeds_perform nofun rfl fun expired => ?_
  split
  · exact proceeds_attempts hop l _ _ hw
  · refine proceeds_perform nofun rfl fun now => proceeds_perform nofun rfl fun ended => ?_
    refine proceeds_perform nofun rfl fun _ => ?_
    refine ((proceeds_attempts hop l _ _ hw).protect _).attempt fun outcome w hw => ?_
    exact proceeds_perform nofun rfl fun _ => proceeds_ofExcept hw

end Attempts

/-! ### Whole runs -/

theorem proceeds_call (call : Call) {op : Operation} (hop : call.terminal.operation? = some op)
    {w : Chronicle} (hw : Quiet w) :
    Steady (backend patience).recorded Quiet
      (fun r w => Achieves call.locator.options op r w.2) (call.activity (browser patience)) w := by
  have hperform : ∀ op, op ≠ .find → Proceeds patience
      (fun r w => Achieves call.locator.options op r w.2) (do
        call.locator.perform (browser patience) op call.signal
        return (none : Option Handle)) w := by
    intro op hop
    have hdone : Proceeds patience (fun r w => Achieves call.locator.options op r w.2)
        (call.locator.perform (browser patience) op call.signal) w := by
      refine (proceeds_run hop call.locator call.signal hw).andThen ?_ fun e w hw => hw
      exact fun _ w hw => hw
    refine hdone.andThen ?_ fun e w hw => hw
    exact fun _ w hw => hw
  obtain ⟨locator, terminal, signalled⟩ := call
  cases terminal with
  | click | hover | scroll | fill =>
    obtain rfl := Option.some.inj hop
    exact hperform _ nofun
  | waitHandle | waitValue | waitAs | wait => exact absurd hop nofun

/-- An operation that has returned was done exactly once, in one go and to one element, which was fit
for it; if it has failed, nothing was done to any element.  The record of the run shows it, and what
the elements have entered in their own records says the same. -/
theorem deeds_of_run (budget : Nat) (call : Call) {op : Operation}
    (hop : call.terminal.operation? = some op) (s : Scene)
    {outcome : Except Error (Option Handle)} {after : Timeline side.signature Page}
    (hrun : Timeline.run (backend patience) budget (call.activity (browser patience)) (s.timeline patience) =
      (some outcome, after)) :
    ∃ record : List PageMoment,
      Timeline.run (backend patience).recorded budget (call.activity (browser patience))
        ((s.timeline patience).withRecord []) = (some outcome, after.withRecord record) ∧
      (∀ id, (after.world.element id).record =
        (s.page.element id).record + deedsOn id (deeds record)) ∧
      Achieves call.locator.options op outcome record := by
  obtain ⟨record, hrecorded⟩ := Timeline.run_withRecord hrun
  have hworld : (s.timeline patience).world = s.page := Activity.Timeline.forkAll_world _ _
  have hanything : ∀ {α : Type} (p : side.Task α), Activity.Asks (fun _ => True) p :=
    Activity.asks_of_forall fun _ => trivial
  have hmild : ∀ {α : Type} (p : side.Task α), Innocent (S := side.signature) (fun _ => True) p :=
    Activity.innocent_of_forall fun _ => trivial
  refine ⟨record, hrecorded, ?_, ?_⟩
  · have haccounted : Accounted s.page ((s.timeline patience).world, []) := by
      rw [hworld]
      exact fun id => (add_zero _).symm
    have hall : Timeline.Tame (B := (backend patience).recorded) (fun _ => True) (fun _ => True)
        ((s.timeline patience).withRecord []) := tame_scene s fun _ _ => (hmild _).tame
    exact Activity.run_steady (I := Accounted s.page) (Q := fun _ => Accounted s.page)
      (Activity.tames_of_innocent fun _ => hmild _) (kept_accounted s.page) (fun _ => kept_accounted s.page) hall
      (hanything _) (Innocent.steady (hmild _) (kept_accounted s.page) haccounted) hrecorded
  · have hbackground : Timeline.Tame (B := (backend patience).recorded) (fun _ => True) Query.Gentle
        ((s.timeline patience).withRecord []) := tame_scene s fun _ _ => (innocent_start _).tame
    exact Activity.run_steady (Activity.tames_of_innocent innocent_start) kept_quiet (kept_achieves _ _ op)
      hbackground (hanything _) (proceeds_call call hop rfl) hrecorded

/-- A page with a button that is disabled for a while and at first does not keep its place. -/
def restlessScene : Scene where
  page := { Page.ofElements #[{ Element.ofKind .unknown with
      disabled := true, inViewport := false, unstable := 1 }] with
    served := [("button", 0)] }
  clock := 0
  cancelled := false
  events := [.change ⟨150, .setDisabled 0 false⟩]

/-- To click the button. -/
def clickCall : Call where
  locator := .node .default () "button"
  terminal := .click ClickOptions.default
  signalled := false

/-- The click, run to its end. -/
def clickRun : Option (Except Error (Option Handle)) × Timeline side.signature Page :=
  Timeline.run (backend 0) 40 (clickCall.activity (browser 0)) (restlessScene.timeline 0)

/-- The third attempt succeeds, and there is one click on one element. -/
theorem deeds_of_clickRun :
    clickRun.1 = some (.ok none) ∧ clickRun.2.clock = 200 ∧
      ∃ id, ∀ other, (clickRun.2.world.element other).record =
        (restlessScene.page.element other).record +
          if id = other then {.click ClickOptions.default} else 0 := by
  have houtcome : clickRun.1 = some (.ok none) := by cbv
  have hclock : clickRun.2.clock = 200 := by decide +kernel
  refine ⟨houtcome, hclock, ?_⟩
  have hrun : clickRun = (some (.ok none), clickRun.2) := by rw [← houtcome]
  obtain ⟨record, -, hrecords, before, checks, acting, rest, h, p, id, ds, -, hdeeds, hperformed⟩ :=
    deeds_of_run 40 clickCall rfl restlessScene hrun
  have hclick : ds = [.click ClickOptions.default] := by
    have heffect : effect? (.click ClickOptions.default) (p.element id) = some ds :=
      hperformed.effect
    rw [effect?, if_pos (visible_of_effect heffect)] at heffect
    exact (Option.some.inj heffect).symm
  refine ⟨id, fun other => (hrecords other).trans ?_⟩
  rw [hdeeds, hclick]
  by_cases hid : id = other
  · simp [deedsOn, hid]
  · simp [deedsOn, hid]

end Wayfind.Simulation
