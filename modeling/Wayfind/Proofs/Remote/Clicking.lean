/-
How a click leaves the buttons of the mouse.

To click is to press a button and to release it, as often as is asked for.  Between the two
the program may wait: for the time the click has, and for the page to say what has come of
the press.  Whatever the page answers, and whichever commands fail, a press that the page
accepted is followed by the release of the same button in the same row; unless the operation
is interrupted in between.  Then what remains of the click is dropped, and as nothing else
releases a button, it stays pressed.
-/
import Wayfind.Proofs.Remote.Conservation
import Wayfind.Proofs.Remote.Guiding

namespace Wayfind.Remote

open Activity (Asks KeptBy Request Timeline Token asks_andThen)
open Keeping (Call Terminal)
open PageSide (Action releaseDuty)

variable {P : Peer} {patience : Nat} {α β : Type}

/-! ### Gestures -/

/-- A button, and as the how manieth click in a row. -/
structure Stroke where
  button : Json
  count : Json

/-- What becomes of a button of the mouse. -/
inductive Gesture where
  /-- It is pressed, and the page accepts that; the program knows so many milliseconds later. -/
  | press (stroke : Stroke) (delay : Nat)
  /-- The page is told that it is released. -/
  | release (stroke : Stroke)

/-- The gesture of a button that a command is, with what comes of it. -/
def gestureOf (method : String) (params : Json) (d : Delivery) : Option Gesture :=
  if method = "Input.dispatchMouseEvent" then
    let stroke : Stroke := ⟨params.member "button", params.member "clickCount"⟩
    if (params.member "type").string? = some "mousePressed" then
      match d.outcome with
      | .ok _ => some (.press stroke d.delay)
      | .error _ => none
    else if (params.member "type").string? = some "mouseReleased" then some (.release stroke)
    else none
  else none

/-- The gesture of a button that was made at an instant. -/
def Instant.gesture? (m : Instant P) : Option Gesture :=
  match m.query with
  | .command method params => gestureOf method params (P.command method params m.world.peer).1
  | _ => none

/-- The gestures of buttons, one after another. -/
def gestures (record : List (Instant P)) : List Gesture := record.filterMap Instant.gesture?

/-- Every press is followed by the release of the same stroke, before any other. -/
inductive Paired : List Gesture → Prop where
  | nil : Paired []
  | snoc {before : List Gesture} (h : Paired before) (stroke : Stroke) (delay : Nat) :
    Paired (before ++ [.press stroke delay, .release stroke])

/-- A button was pressed last, in a click that takes time between press and release. -/
def Pending (o : ClickOptions) (gs : List Gesture) : Prop :=
  ∃ before stroke delay, gs = before ++ [.press stroke delay] ∧ Paired before ∧ (0 < o.delay ∨ 0 < delay)

theorem Paired.released {gs : List Gesture} (h : Paired gs) {stroke : Stroke} {delay : Nat}
    (hpress : .press stroke delay ∈ gs) : .release stroke ∈ gs := by
  induction h with
  | nil => exact absurd hpress List.not_mem_nil
  | snoc h other d ih =>
    rcases List.mem_append.mp hpress with hpress | hpress
    · exact List.mem_append_left _ (ih hpress)
    · simp only [List.mem_cons, Gesture.press.injEq, reduceCtorEq, List.not_mem_nil, or_false] at hpress
      rw [hpress.1]
      simp

/-- The question moves no button. -/
def Query.IsStill : Query → Prop
  | .command method params => method = "Input.dispatchMouseEvent" →
    (params.member "type").string? ≠ some "mousePressed" ∧
      (params.member "type").string? ≠ some "mouseReleased"
  | _ => True

theorem Query.IsStill.gesture? {m : Instant P} (h : m.query.IsStill) : m.gesture? = none := by
  obtain ⟨w, q⟩ := m
  cases q with
  | command method params =>
    show gestureOf method params _ = none
    unfold gestureOf
    by_cases hmethod : method = "Input.dispatchMouseEvent"
    · rw [if_pos hmethod]
      exact (if_neg (h hmethod).1).trans (if_neg (h hmethod).2)
    · exact if_neg hmethod
  | _ => rfl

theorem still_of_plain {q : Query} (h : q.IsPlain) : q.IsStill := by
  cases q with
  | command method params => exact fun hmethod => absurd hmethod h.2.1
  | _ => trivial

theorem still_call (doc : Json) (_ : Spares doc) : (Query.command "Runtime.callFunctionOn" doc).IsStill :=
  fun h => absurd h (by decide)

/-! ### The gestures of a recorded world -/

/-- What a recorded world shows of the mouse. -/
abbrev shown (x : Recorded P) : List Gesture := gestures x.2

theorem shown_tell (x : Recorded P) (q : Query) :
    shown (x.tell q) = shown x ++ (Instant.gesture? (⟨x.1, q⟩ : Instant P)).toList := by
  unfold shown gestures Recorded.tell
  rw [List.filterMap_append, List.filterMap_cons]
  cases Instant.gesture? (⟨x.1, q⟩ : Instant P) <;> rfl

theorem kept_shown (gs : List Gesture) :
    KeptBy (recording P patience) Query.IsStill fun x => shown x = gs := by
  intro q x hq hx
  refine (shown_tell x q).trans ?_
  rw [Query.IsStill.gesture? (m := ⟨x.1, q⟩) hq, Option.toList_none, List.append_nil]
  exact hx

/-- The action, begun with such gestures, ends as it should. -/
abbrev Plays (P : Peer) (patience : Nat) (halting : List Gesture → Prop)
    (Q : Except Error α → List Token → List Gesture → Prop) (a : side.Action α) (known : List Token)
    (gs : List Gesture) : Prop :=
  Wayfind.Guides (recording P patience) shown halting Q a known gs

/-! ### A click -/

/-- While the program may have to wait in a click, every press was followed by its release, but perhaps
the last. -/
def Poised (o : ClickOptions) (gs : List Gesture) : Prop := Paired gs ∨ Pending o gs

theorem handsoff_still : Handsoff fun r => ∀ q, r = .query q → Query.IsStill q :=
  handsoff_mild (fun _ => still_of_plain) still_call

section Click

variable {o : ClickOptions} {halting : List Gesture → Prop} {known : List Token} {gs : List Gesture}

/-- A command makes its gesture, and the program waits for the page to say what has come of it. -/
theorem guides_gesture {method : String} {doc : Json}
    (hwait : ∀ d : Delivery, 0 < d.delay → halting (gs ++ (gestureOf method doc d).toList)) :
    Plays P patience halting (fun r more gs' => more = known ∧ ∃ d : Delivery, r = d.outcome ∧
        gs' = gs ++ (gestureOf method doc d).toList) (send method doc) known gs := by
  refine guides_send (fun x => (shown_tell x .forget).trans (List.append_nil _)) fun x hx => ?_
  have hshown : shown (x.tell (.command method doc)) =
      gs ++ (gestureOf method doc (x.delivery method doc)).toList := by
    rw [shown_tell, hx]
    rfl
  rw [hshown]
  exact ⟨hwait _, rfl, _, rfl, rfl⟩

/-- The parameters of an event of the mouse. -/
abbrev mouseParams (kind : String) (point : Float × Float) (stroke : MouseButton × Nat) : Json :=
  params [("type", .string kind), ("x", .float point.1), ("y", .float point.2),
    ("button", .string stroke.1.name), ("clickCount", .nat stroke.2)]

/-- The stroke of a click of a number in a row. -/
def strokeOf (o : ClickOptions) (count : Nat) : Stroke := ⟨.string o.button.name, .nat count⟩

/-- A button is pressed, if the page accepts that; the program may wait for the page to say so. -/
theorem guides_press (point : Float × Float) (o : ClickOptions) (count : Nat) (hgs : Paired gs) :
    Plays P patience (Poised o) (fun r more gs' => more = known ∧
        ((∃ e, r = .error e) ∧ gs' = gs ∨ r = .ok () ∧ ∃ delay, gs' = gs ++ [.press (strokeOf o count) delay]))
      (Handle.mouse "mousePressed" point o.button.name count) known gs := by
  have hgesture (d : Delivery) : gestureOf "Input.dispatchMouseEvent"
      (mouseParams "mousePressed" point (o.button, count)) d = match d.outcome with
        | .ok _ => some (.press (strokeOf o count) d.delay)
        | .error _ => none := (if_pos rfl).trans (if_pos rfl)
  have hhalts (d : Delivery) (hdelay : 0 < d.delay) : Poised o (gs ++ (gestureOf "Input.dispatchMouseEvent"
      (mouseParams "mousePressed" point (o.button, count)) d).toList) := by
    rw [hgesture]
    cases d.outcome with
    | ok reply => exact .inr ⟨gs, strokeOf o count, d.delay, rfl, hgs, .inr hdelay⟩
    | error e => exact .inl (by rw [Option.toList_none, List.append_nil]; exact hgs)
  refine (guides_gesture hhalts).andThen ?_ ?_
  · rintro reply more gs' ⟨rfl, d, hr, rfl⟩
    rw [hgesture, ← hr]
    exact ⟨rfl, .inr ⟨rfl, d.delay, rfl⟩⟩
  · rintro e more gs' ⟨rfl, d, hr, rfl⟩
    rw [hgesture, ← hr]
    exact ⟨rfl, .inl ⟨⟨e, rfl⟩, List.append_nil gs⟩⟩

/-- A button is released, whatever the page says. -/
theorem guides_release (point : Float × Float) (o : ClickOptions) (count : Nat)
    (hgs : Paired (gs ++ [.release (strokeOf o count)])) :
    Plays P patience (Poised o) (fun _ more gs' => more = known ∧ Paired gs')
      (Handle.mouse "mouseReleased" point o.button.name count) known gs := by
  have hgesture (d : Delivery) : gestureOf "Input.dispatchMouseEvent"
      (mouseParams "mouseReleased" point (o.button, count)) d = some (.release (strokeOf o count)) :=
    (if_pos rfl).trans ((if_neg (show some "mouseReleased" ≠ some "mousePressed" by decide)).trans (if_pos rfl))
  have hhalts (d : Delivery) (_ : 0 < d.delay) : Poised o (gs ++ (gestureOf "Input.dispatchMouseEvent"
      (mouseParams "mouseReleased" point (o.button, count)) d).toList) := by
    rw [hgesture]
    exact .inl hgs
  refine (guides_gesture hhalts).andThen ?_ ?_
  · rintro reply more gs' ⟨rfl, d, -, rfl⟩
    rw [hgesture]
    exact ⟨rfl, hgs⟩
  · rintro e more gs' ⟨rfl, d, -, rfl⟩
    rw [hgesture]
    exact ⟨rfl, hgs⟩

theorem guides_pressAndRelease (point : Float × Float) (o : ClickOptions) (count : Nat)
    (hgs : Paired gs) :
    Plays P patience (Poised o) (fun _ more gs' => more = known ∧ Paired gs')
      (Handle.pressAndRelease point o count) known gs := by
  refine (guides_press point o count hgs).andThen ?_ ?_
  · rintro _ more gs' ⟨rfl, ⟨⟨e, he⟩, -⟩ | ⟨-, delay, rfl⟩⟩
    · exact absurd he nofun
    · have hreleased : Paired ((gs ++ [.press (strokeOf o count) delay]) ++ [.release (strokeOf o count)]) := by
        rw [List.append_assoc]
        exact hgs.snoc _ _
      by_cases hdelay : o.delay > 0
      · rw [if_pos hdelay]
        exact guides_sleep _ (.inr ⟨gs, _, delay, rfl, hgs, .inl hdelay⟩) (guides_release point o count hreleased)
      · rw [if_neg hdelay]
        exact guides_release point o count hreleased
  · rintro e more gs' ⟨rfl, ⟨-, rfl⟩ | ⟨hr, -⟩⟩
    · exact ⟨rfl, hgs⟩
    · exact absurd hr nofun

/-- To move the mouse moves no button. -/
theorem innocent_moveMouse (point : Float × Float) : (Handle.moveMouse point).Innocent Query.IsStill := by
  refine asks_andThen (asks_send handsoff_still.toPlain ?_) fun _ => trivial
  intro q hq
  obtain rfl := Request.query.inj hq
  exact fun _ => ⟨show some "mouseMoved" ≠ some "mousePressed" by decide,
    show some "mouseMoved" ≠ some "mouseReleased" by decide⟩

theorem guides_strokes (point : Float × Float) (o : ClickOptions) (counts : List Nat) (hgs : Paired gs) :
    Plays P patience (Poised o) (fun _ more gs' => more = known ∧ Paired gs')
      (counts.forM (Handle.pressAndRelease point o)) known gs := by
  induction counts generalizing gs with
  | nil => exact ⟨rfl, hgs⟩
  | cons count rest ih =>
    refine (guides_pressAndRelease point o count hgs).andThen ?_ fun e more gs' hr => hr
    rintro _ more gs' ⟨rfl, hgs'⟩
    exact ih hgs'

/-- A click that is not interrupted releases whatever it has pressed, and so does one that fails. -/
theorem guides_click (h : Handle) (o : ClickOptions) (hgs : Paired gs) :
    Plays P patience (Poised o) (fun _ _ => Paired) (h.click o) known gs := by
  have hstill {α : Type} {a : side.Action α} {known : List Token} (ha : a.Innocent Query.IsStill) :
      Plays P patience (Poised o) (fun _ _ gs' => gs' = gs) a known gs :=
    (guides_innocent ha kept_shown (.inl hgs)).mono fun _ _ _ hr => hr.1
  refine (hstill (asks_box handsoff_still h)).andThen ?_ fun e more gs' hr => hr ▸ hgs
  rintro b more gs' rfl
  refine (hstill (innocent_moveMouse _)).andThen ?_ fun e more gs' hr => hr ▸ hgs
  rintro _ more gs' rfl
  exact (guides_strokes _ o _ hgs).mono fun _ _ _ hr => hr.2

theorem guides_act (options : Locator.Options) (h : Handle) (o : ClickOptions) (hgs : Paired gs) :
    Plays P patience (Poised o) (fun _ _ => Paired)
      (Locator.act (realm patience) options h (.click o)) known gs := by
  have hstill {α : Type} {a : side.Action α} {known : List Token} (ha : a.Innocent Query.IsStill) :
      Plays P patience (Poised o) (fun _ _ gs' => gs' = gs) a known gs :=
    (guides_innocent ha kept_shown (.inl hgs)).mono fun _ _ _ hr => hr.1
  refine (hstill (asks_inViewport handsoff_still options h)).andThen ?_ fun e more gs' hr => hr ▸ hgs
  rintro _ more gs' rfl
  refine (hstill (asks_stable handsoff_still options h)).andThen ?_ fun e more gs' hr => hr ▸ hgs
  rintro _ more gs' rfl
  refine (hstill (asks_enabled handsoff_still options h)).andThen ?_ fun e more gs' hr => hr ▸ hgs
  rintro _ more gs' rfl
  exact guides_perform nofun rfl fun _ _ => guides_click h o hgs

end Click

/-! ### The attempts -/

/-- How an operation ends that was interrupted. -/
def Interrupted (timeout : Nat) (e : Error) : Prop :=
  e = .cancelled ∨ e = .timeout ("Timed out after waiting " ++ toString timeout ++ "ms")

section Attempts

variable {o : ClickOptions} {known : List Token} {gs : List Gesture}

/-- Where an attempt may stop: every press was followed by its release, but for one of an attempt that
has failed because the operation's token was cancelled. -/
def Stops (o : ClickOptions) (t : Token) (r : Except Error α) (known : List Token)
    (gs : List Gesture) : Prop :=
  Paired gs ∨ Pending o gs ∧ t ∈ known ∧ ∃ e, r = .error e

/-- What an operation leaves: every press was followed by its release, but for the last one of an
operation that was interrupted. -/
def Leaves (o : ClickOptions) (timeout : Nat) (r : Except Error α) (gs : List Gesture) : Prop :=
  Paired gs ∨ Pending o gs ∧ ∃ e, r = .error e ∧ Interrupted timeout e

theorem Leaves.paired {timeout : Nat} {v : α} (h : Leaves o timeout (.ok v : Except Error α) gs) : Paired gs :=
  h.resolve_right fun hpending => absurd hpending.2.choose_spec.1 nofun

/-- What is left after an error is so whatever the operation would have ended with. -/
theorem Leaves.error {timeout : Nat} {e : Error} (h : Leaves o timeout (.error e : Except Error α) gs) :
    Leaves o timeout (.error e : Except Error β) gs :=
  h.imp id fun ⟨hpending, _, he, hinterrupted⟩ => ⟨hpending, e, rfl, Except.error.inj he ▸ hinterrupted⟩

/-- Under the operation's token a click may be dropped between press and release; an attempt that has
failed for another reason leaves no press over. -/
theorem attempted_click (l : Locator Unit) (i : Interrupt) {timeout : Nat} (hi : i.timeout = timeout) :
    Attempted (recording P patience) shown (browser patience) l (.click o) i (fun _ => True)
      (fun r _ => Leaves o timeout r) Paired (fun known gs => Paired gs ∨ Pending o gs ∧ i.token ∈ known) where
  halts := fun _ => trivial
  attempt := fun hgs => by
    have hbrowser : (browser patience).Innocent Query.IsStill :=
      innocent_browser (fun _ => still_of_plain) still_call
    refine Wayfind.guides_attempt (I := Poised o) (R := Stops o i.token) hbrowser kept_shown nofun ?_ trivial
      (fun _ _ => trivial) (fun _ => trivial) ?_ (fun _ => .inl hgs) ?_ ?_ ?_
    · exact fun h known => (guides_act l.options h o hgs).mono fun _ _ _ => .inl
    · exact fun hr hmore => hr.imp id fun hpending => ⟨hpending.1, hmore hpending.2.1, hpending.2.2⟩
    · exact fun known gs e ht hgs => hgs.imp id fun hpending => ⟨hpending, ht, e, rfl⟩
    · exact fun hr => .inl (hr.resolve_right fun hpending => absurd hpending.2.2.choose_spec nofun)
    · exact fun hr => hr.imp id fun hpending => ⟨hpending.1, hpending.2.1⟩
  again := fun hr hknown => hr.resolve_right fun hpending => hknown hpending.2
  fails := fun hr htells => hr.imp id fun hpending => ⟨hpending.1, _, rfl, hi ▸ htells⟩
  paused := fun hgs _ => .inl hgs

theorem guides_run (l : Locator Unit) (signal : Option Token) (hgs : Paired gs) :
    Plays P patience (fun _ => True) (fun r _ => Leaves o l.options.timeout r)
      (l.run (browser patience) (.click o) signal) known gs := by
  refine guides_within fun i hi => ?_
  exact (attempted_click l i hi).attempts _ hgs

end Attempts

/-! ### Whole runs -/

/-- When a click has ended, every press that the page accepted was followed by the release of the same
button in the same row, over all attempts; but perhaps for the last one, if the click takes time between
press and release and the operation was interrupted. -/
theorem released_of_run (budget : Nat) (call : Call side) {o : ClickOptions} (hclick : call.terminal = .click o)
    (s : Scene P) {outcome : Except Error (Option Handle)}
    {after : Timeline side.signature (recording P patience).World}
    (hrun : (s.timeline patience).run (recording P patience) budget (call.activity (browser patience)) =
      (some outcome, after)) :
    Leaves o call.timeout outcome (gestures after.world.2) := by
  have hjobs : ∀ job, Activity.Innocent (S := side.signature) Query.IsStill ((recording P patience).start job) :=
    innocent_start (P := P) (fun _ => still_of_plain) still_call
  have hbackground : Timeline.Tame (B := recording P patience) (fun _ => True) Query.IsStill
      (s.timeline patience) :=
    Timeline.Tame.forkAll (fun _ h => absurd h List.not_mem_nil) fun job _ => (hjobs job).tame
  have hnothing : gestures (s.timeline patience).world.2 = [] := by
    rw [Scene.timeline, Timeline.forkAll_world]
    rfl
  have hcall : Plays P patience (fun _ => True) (fun r _ => Leaves o call.timeout r)
      (call.terminal.action (browser patience) call.locator call.signal) []
      (gestures (s.timeline patience).world.2) := by
    rw [hclick, hnothing]
    have hperform : Plays P patience (fun _ => True) (fun r _ => Leaves o call.timeout r)
        (call.locator.perform (browser patience) (.click o) call.signal) [] [] := by
      refine (guides_run call.locator call.signal .nil).andThen ?_ fun e known gs hr => hr.error
      exact fun _ known gs hr => .inl hr.paired
    exact hperform.andThen (fun _ known gs hr => .inl hr.paired) fun e known gs hr => hr.error
  obtain ⟨known, hleaves⟩ := Activity.run_abides (Activity.tames_of_innocent hjobs) kept_shown hbackground
    (Activity.asks_of_forall (fun _ => trivial) _) hcall hrun
  exact hleaves

/-! ### A double click -/

/-- A page that answers every command at once, with a node that has a place and a size. -/
def obliging : Peer where
  State := Unit
  command _ _ _ := (⟨0, .ok (.object [("result", .object [("subtype", .string "node"),
    ("objectId", .string "1"), ("value", .object [("x", .nat 0), ("y", .nat 0), ("width", .nat 10),
      ("height", .nat 10)])])])⟩, [], ())
  listen _ := .ok ()
  close _ := (.ok (), ())

/-- A new connection to the page. -/
def obligingScene (events : List Event) : Scene obliging where
  world := World.init () "bundle"
  clock := 0
  cancelled := false
  events := events

/-- To click twice, each time with 50 ms between press and release. -/
def doubleOptions : ClickOptions := { ClickOptions.default with count := 2, delay := 50 }

/-- A double click on the body, whether it moves or not. -/
def doubleCall : Call side where
  locator := .function { Locator.Options.default with waitForStable := false } () "() => document.body"
  terminal := .click doubleOptions
  signalled := true

/-- The double click, run to its end while this happens. -/
def doubleRun (events : List Event) : Option (Except Error (Option Handle)) ×
    Timeline side.signature (recording obliging 1).World :=
  ((obligingScene events).timeline 1).run (recording obliging 1) 40 (doubleCall.activity (browser 1))

/-- When nothing happens, the button is pressed and released twice. -/
theorem released_of_doubleRun :
    (doubleRun []).1 = some (.ok none) ∧
      gestures (doubleRun []).2.world.2 = [
        .press (strokeOf doubleOptions 1) 0, .release (strokeOf doubleOptions 1),
        .press (strokeOf doubleOptions 2) 0, .release (strokeOf doubleOptions 2)] ∧
      Leaves doubleOptions 30000 (.ok none : Except Error (Option Handle)) (gestures (doubleRun []).2.world.2) := by
  have houtcome : (doubleRun []).1 = some (.ok none) := rfl
  have hrun : doubleRun [] = (some (.ok none), (doubleRun []).2) := by rw [← houtcome]
  exact ⟨houtcome, rfl, released_of_run 40 doubleCall rfl (obligingScene []) hrun⟩

/-- Not every button that is pressed is released: whoever cancels a double click 20 ms after it was
begun leaves the button pressed. -/
theorem not_released_of_cancelled :
    ¬ ∀ (P : Peer) (patience budget : Nat) (call : Call side) (o : ClickOptions) (s : Scene P)
        (outcome : Except Error (Option Handle))
        (after : Timeline side.signature (recording P patience).World),
      call.terminal = .click o →
      (s.timeline patience).run (recording P patience) budget (call.activity (browser patience)) =
        (some outcome, after) →
      ∀ stroke delay, .press stroke delay ∈ gestures after.world.2 →
        .release stroke ∈ gestures after.world.2 := by
  intro hclaim
  have hrun : doubleRun [.cancel 20] = (some (.error .cancelled), (doubleRun [.cancel 20]).2) := rfl
  have hgestures : gestures (doubleRun [.cancel 20]).2.world.2 =
      [.press (strokeOf doubleOptions 1) 0] := rfl
  have hrelease := hclaim obliging 1 40 doubleCall doubleOptions (obligingScene [.cancel 20]) _ _ rfl hrun
    (strokeOf doubleOptions 1) 0 (by rw [hgestures]; exact List.mem_singleton_self _)
  rw [hgestures] at hrelease
  exact absurd (List.mem_singleton.mp hrelease) nofun

end Wayfind.Remote
