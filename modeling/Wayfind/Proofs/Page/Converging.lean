/-
Filling comes to the text, however often typing fails.

What `Sheet.Fillable` asks for holds over a connection and on the simulated page, so what
follows from it does (`fills_of_runs`).  The connection may fail at any key, and the attempt
that comes after begins with whatever that one has left.
-/
import Wayfind.Proofs.Remote.Filling
import Wayfind.Proofs.Simulation.Filling

namespace Wayfind

open Activity (Timeline Token)

/-- Wherever elements can be filled, over a connection, and on the simulated page: every attempt goes along
the course that the text it read asks for, and when the operation succeeds, the element holds the text. -/
theorem fills_of_runs (desired : String) (signal : Option Token) (budget : Nat)
    (outcome : Option (Except Error Unit)) :
    (∀ {B : PageSide} {K : Activity.Backend B.signature} (s : Sheet K) {b : Browser B}
        {permits : Activity.Request B.signature → Prop} {mild : B.Query → Prop} {firm whole : Prop}
        (l : Locator B.Page) {tl after : Timeline B.signature K.World},
      s.Fillable b permits mild firm whole → tl.Tame permits mild →
      tl.run K budget (l.perform b (.fill desired) signal).outcome = (outcome, after) →
      ∃ pieces, s.Fills firm whole desired (s.view tl.world) (s.view after.world) outcome pieces) ∧
    (∀ {P : Remote.Peer} {F : Remote.Fields P} (patience : Nat) (l : Locator Unit) (s : Remote.Scene P)
        {after : Timeline Remote.side.signature (Remote.recording P patience).World},
      F.Typeable →
      (s.timeline patience).run (Remote.recording P patience) budget
        (l.perform (Remote.browser patience) (.fill desired) signal).outcome = (outcome, after) →
      ∃ pieces, (F.sheet patience).Fills False False desired (F.seen (s.world, [])) (F.seen after.world)
        outcome pieces) ∧
    ∀ (patience : Nat) (l : Locator Unit) (s : Simulation.Scene)
        {after : Timeline Simulation.side.signature (Simulation.backend patience).recorded.World},
      s.Unwritten →
      ((s.timeline patience).withRecord []).run (Simulation.backend patience).recorded budget
        (l.perform (Simulation.browser patience) (.fill desired) signal).outcome = (outcome, after) →
      ∃ pieces, (Simulation.sheet patience).Fills True True desired (Simulation.seen (s.page, []))
        (Simulation.seen after.world) outcome pieces := by
  refine ⟨fun s b permits mild firm whole l tl after hs ht hrun => hs.fills_of_run l signal ht hrun, ?_, ?_⟩
  · intro P F patience l s after hF hrun
    have hfillable : (F.sheet patience).Fillable (Remote.browser patience) (fun _ => True) Remote.Query.Harmless
        False False := hF.fillable
    have hbackground : Timeline.Tame (B := Remote.recording P patience) (fun _ => True) Remote.Query.Harmless
        (s.timeline patience) :=
      Timeline.Tame.forkAll (fun _ h => absurd h List.not_mem_nil) fun job _ =>
        (Remote.innocent_start (P := P) Remote.Fields.harmless_plain Remote.Fields.harmless_call job).tame
    have hstart : (s.timeline patience).world = (s.world, []) := Activity.Timeline.forkAll_world _ _
    have hfills := hfillable.fills_of_run l signal hbackground hrun
    rw [hstart] at hfills
    exact hfills
  · intro patience l s after hs hrun
    have hfillable : (Simulation.sheet patience).Fillable (Simulation.browser patience) s.Permits
        Simulation.Query.Spares True True := hs.fillable
    have hbackground : Timeline.Tame (B := (Simulation.backend patience).recorded) s.Permits
        Simulation.Query.Spares ((s.timeline patience).withRecord []) :=
      Simulation.tame_timeline Simulation.spares_looks hs.spares
    have hstart : (s.timeline patience).world = s.page := Activity.Timeline.forkAll_world _ _
    have hfills := hfillable.fills_of_run l signal hbackground hrun
    rw [← hstart]
    exact hfills

/-! ### A field whose second key is stuck -/

open Remote (Fields Peer World recording)

/-- A reply that gives a value. -/
def valueReply (v : Json) : Json := .object [("result", .object [("type", .string "any"), ("value", v)])]

/-- What a field with a content answers to a page function, and its content then. -/
def fieldAnswer (script content : String) : Json × String :=
  if script = ElementScript.fillKind then (.string "typeable-input", content)
  else if script = ElementScript.text then (.string content, content)
  else if script = ElementScript.clear then (.null, "")
  else (.bool true, content)

/-- A field takes every key but the second. -/
def fieldKey (text content : String) (earlier : Nat) : Except Error Json × String × Nat :=
  if earlier = 1 then (.error (.protocol "The key is stuck"), content, 2)
  else (.ok .null, content ++ text, earlier + 1)

/-- What comes of a command to the page of a field, and its content and the number of its keys then. -/
def fieldCommand (method : String) (doc : Json) (s : String × Nat) : Except Error Json × String × Nat :=
  if method = "Input.dispatchKeyEvent" then fieldKey ((doc.member "text").string?.getD "") s.1 s.2
  else if method = "Runtime.callFunctionOn" ∧ (doc.member "returnByValue").bool? = some true then
    let answer := fieldAnswer ((doc.member "functionDeclaration").string?.getD "") s.1
    (.ok (valueReply answer.1), answer.2, s.2)
  else (.ok (.object [("result", .object [("subtype", .string "node"), ("objectId", .string "1")])]), s)

/-- A page with a field whose second key is stuck. -/
def stumbling : Peer where
  State := String × Nat
  command method doc s := (⟨0, (fieldCommand method doc s).1⟩, [], (fieldCommand method doc s).2)
  listen _ := .ok ()
  close s := (.ok (), s)

/-- The field. -/
def stumblingFields : Fields stumbling where
  Node := Unit
  node _ := ()
  text s _ := s.1
  focused _ := some ()

/-- A new connection to the page, whose field holds another text. -/
def stumblingScene : Remote.Scene stumbling where
  world := World.init ("x", 0) "bundle"
  clock := 0
  cancelled := false
  events := []

/-- The field, whether enabled or not. -/
def fieldLocator : Locator Unit :=
  .function { Locator.Options.default with waitForEnabled := false } () "() => document.activeElement"

/-- The field is filled, on record. -/
def stumblingRun : Option (Except Error Unit) × Timeline Remote.side.signature (recording stumbling 1).World :=
  (stumblingScene.timeline 1).run (recording stumbling 1) 60
    (fieldLocator.perform (Remote.browser 1) (.fill "ab") none).outcome

theorem fieldCommand_call (script : String) (this : Json) (id : String) (s : String × Nat) :
    fieldCommand "Runtime.callFunctionOn" (Remote.callParams script [this] true id) s =
      (.ok (valueReply (fieldAnswer script s.1).1), (fieldAnswer script s.1).2, s.2) := by
  unfold fieldCommand
  rw [if_neg (by decide), if_pos ⟨rfl, rfl⟩]
  rfl

theorem fieldCommand_key (c : Char) (s : String × Nat) :
    fieldCommand "Input.dispatchKeyEvent" (Remote.keyParams c) s = fieldKey (String.singleton c) s.1 s.2 :=
  if_pos rfl

/-- The content stays, unless a key is sent or the field is emptied. -/
theorem fieldCommand_harmless {method : String} {doc : Json} (h : (Remote.Query.command method doc).Harmless)
    (s : String × Nat) : (fieldCommand method doc s).2.1 = s.1 := by
  have hkey : method ≠ "Input.dispatchKeyEvent" := by
    rcases h with hplain | ⟨_, -, hquery⟩
    · exact hplain.2.2
    · rw [(Remote.Query.command.inj hquery).1]
      decide
  unfold fieldCommand
  rw [if_neg hkey]
  split
  · rename_i hcall
    have hclear : (doc.member "functionDeclaration").string?.getD "" ≠ ElementScript.clear := by
      rcases h with hplain | ⟨_, hspares, hquery⟩
      · exact absurd hcall.1 hplain.1
      · obtain ⟨-, rfl⟩ := Remote.Query.command.inj hquery
        have hother := hspares hcall.2 ElementScript.clear (by decide +kernel)
        cases hdeclared : (doc.member "functionDeclaration").string? with
        | none => decide +kernel
        | some declared => exact fun hsame => hother (hdeclared.trans (congrArg some hsame))
    show (fieldAnswer _ s.1).2 = s.1
    unfold fieldAnswer
    rw [if_neg hclear]
    split
    · rfl
    · split <;> rfl
  · rfl

/-- Where such a reply can be read, it gives the value. -/
theorem localValue_of_valueReply {v : Json} {r : Protocol.RemoteObject}
    (hread : Protocol.Evaluation.reader.ofJson? (valueReply v) = some ⟨⟨"any", none, none, some v, none, none⟩, none⟩)
    (hr : Remote.resultOf (.ok (valueReply v)) = .ok r) : r.localValue = v := by
  unfold Remote.resultOf at hr
  dsimp only at hr
  rw [hread] at hr
  rw [← Except.ok.inj hr]
  rfl

/-- It is a field to type in. -/
theorem typeable_stumbling : stumblingFields.Typeable where
  kind := fun this id s r k hr hk => by
    have hcall : (stumbling.command _ _ s).1.outcome = _ :=
      congrArg Prod.fst (fieldCommand_call ElementScript.fillKind this id s)
    have hanswer : (fieldAnswer ElementScript.fillKind s.1).1 = .string "typeable-input" :=
      congrArg Prod.fst (if_pos rfl)
    rw [hcall, hanswer] at hr
    rw [localValue_of_valueReply rfl hr] at hk
    obtain rfl := Option.some.inj (show some FillKind.typeableInput = some k from hk)
    exact ⟨nofun, nofun⟩
  reads := fun this id s r hr => by
    have hcall := fieldCommand_call ElementScript.text this id s
    have hanswer : fieldAnswer ElementScript.text s.1 = (.string s.1, s.1) :=
      (if_neg (by decide +kernel)).trans (if_pos rfl)
    rw [hanswer] at hcall
    have houtcome : (stumbling.command _ _ s).1.outcome = _ := congrArg Prod.fst hcall
    rw [houtcome] at hr
    exact ⟨localValue_of_valueReply rfl hr, congrArg (fun x => x.2.1) hcall⟩
  clears := fun this id s r _ => by
    have hanswer : fieldAnswer ElementScript.clear s.1 = (.null, "") :=
      (if_neg (by decide +kernel)).trans ((if_neg (by decide +kernel)).trans (if_pos rfl))
    have hcall := fieldCommand_call ElementScript.clear this id s
    rw [hanswer] at hcall
    exact congrArg (fun x => x.2.1) hcall
  focuses := fun this id s r _ => by
    have hanswer : fieldAnswer Remote.Script.focus s.1 = (.bool true, s.1) :=
      (if_neg (by decide +kernel)).trans ((if_neg (by decide +kernel)).trans (if_neg (by decide +kernel)))
    have hcall := fieldCommand_call Remote.Script.focus this id s
    rw [hanswer] at hcall
    exact ⟨rfl, congrArg (fun x => x.2.1) hcall⟩
  keys := fun c s n reply _ hreply => by
    have hkey := fieldCommand_key c s
    unfold fieldKey at hkey
    by_cases hstuck : s.2 = 1
    · rw [if_pos hstuck] at hkey
      have herror : (stumbling.command "Input.dispatchKeyEvent" (Remote.keyParams c) s).1.outcome = _ :=
        congrArg Prod.fst hkey
      exact absurd (herror.symm.trans hreply) nofun
    · rw [if_neg hstuck] at hkey
      exact ⟨rfl, congrArg (fun x => x.2.1) hkey⟩
  harmless := fun _ _ s h => ⟨funext fun _ => fieldCommand_harmless h s, rfl⟩
  closes := fun _ => ⟨rfl, rfl⟩

instance : DecidableEq stumblingFields.Node := inferInstanceAs (DecidableEq Unit)

/-- A page with an element whose options are selected. -/
def choiceScene : Simulation.Scene where
  page := { Simulation.Page.ofElements #[Simulation.Element.ofKind .select] with served := [("select", 0)] }
  clock := 0
  cancelled := false
  events := []

/-- An option is selected, on record. -/
def choiceRun :
    Option (Except Error Unit) × Timeline Simulation.side.signature (Simulation.backend 1).recorded.World :=
  ((choiceScene.timeline 1).withRecord []).run (Simulation.backend 1).recorded 40
    ((Locator.node .default () "select").perform (Simulation.browser 1) (.fill "ab") none).outcome

/-- The first attempt empties the field and misses the last key; the second only types what is missing.
An option is selected at once. -/
theorem fills_of_stumblingRun : stumblingRun.1 = some (.ok ()) ∧
    (stumblingFields.seen stumblingRun.2.world).log =
      [.read () "x", .clear (), .key () 'a', .key () 'b', .read () "a", .key () 'b'] ∧
    (∃ pieces, (stumblingFields.sheet 1).Fills False False "ab" (stumblingFields.seen (stumblingScene.world, []))
        (stumblingFields.seen stumblingRun.2.world) (some (.ok ())) pieces) ∧
    choiceRun.1 = some (.ok ()) ∧
    (Simulation.seen choiceRun.2.world).log = [.set (some 0) "ab"] ∧
    ∃ pieces, (Simulation.sheet 1).Fills True True "ab" (Simulation.seen (choiceScene.page, []))
      (Simulation.seen choiceRun.2.world) (some (.ok ())) pieces := by
  have hfilled : stumblingRun.1 = some (.ok ()) := by decide +kernel
  have hrun : stumblingRun = (some (.ok ()), stumblingRun.2) := by rw [← hfilled]
  have hchosen : choiceRun.1 = some (.ok ()) := by decide +kernel
  have hchoice : choiceRun = (some (.ok ()), choiceRun.2) := by rw [← hchosen]
  obtain ⟨-, hconnection, -⟩ := fills_of_runs "ab" none 60 (some (.ok ()))
  obtain ⟨-, -, hpage⟩ := fills_of_runs "ab" none 40 (some (.ok ()))
  refine ⟨hfilled, by decide +kernel, hconnection 1 fieldLocator stumblingScene typeable_stumbling hrun,
    hchosen, by decide +kernel, hpage 1 _ choiceScene (fun _ _ h => absurd h.choose_spec List.not_mem_nil) hchoice⟩

end Wayfind
