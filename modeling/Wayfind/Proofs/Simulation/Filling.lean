/-
Elements of a simulated page can be filled, whatever their kind.

The page does at once what it is asked to: it reads, empties and types, it selects what it
is told, and it sets a value.  So nothing ever comes between reading and emptying.  Where nobody
sets the text of an element from outside, other changes leave the texts of elements alone
(`Scene.Unwritten`).
-/
import Wayfind.Proofs.Page.Filling
import Wayfind.Proofs.Simulation.Outside

namespace Wayfind.Simulation

open Activity (KeptBy Moment Timeline Token)
open PageSide (Action)

variable {patience : Nat}

/-- The element that a handle is of. -/
def Handle.element? (h : Handle) : Option ElementId :=
  match h.target with
  | .element id => some id
  | .json _ => none

theorem element?_of_elementFor {p : Page} {h : Handle} {id : ElementId} (hfor : p.elementFor h = .ok id) :
    h.element? = some id := by
  unfold Page.elementFor at hfor
  split at hfor
  · exact absurd hfor nofun
  · unfold Handle.element?
    cases htarget : h.target with
    | element id' =>
      rw [htarget] at hfor
      exact congrArg some (Except.ok.inj hfor)
    | json doc =>
      rw [htarget] at hfor
      exact absurd hfor nofun

/-- What a page function does to the text of the element behind a handle. -/
def scriptTouches (p : Page) (h : Handle) (script : String) (args : List (Argument Handle)) :
    List (Touch (Option ElementId)) :=
  if script = ElementScript.text then
    match p.elementFor h with
    | .ok id => [.read (some id) (p.element id).value]
    | .error _ => []
  else if script = ElementScript.clear then [.clear h.element?]
  else if script = ElementScript.assign then
    match p.elementFor h with
    | .ok id => [.set (some id) ((Element.argument args 0).string?.getD "")]
    | .error _ => []
  else []

/-- What a question does to the texts of elements. -/
def touches (p : Page) : Query → List (Touch (Option ElementId))
  | .evaluate h script args => scriptTouches p h script args
  | .typeText h text =>
    match p.elementFor h with
    | .ok id => keys (some id) text
    | .error _ => []
  | .select h values =>
    match p.elementFor h with
    | .ok id => if (p.element id).kind = .select then [.set (some id) (values.head?.getD "")] else []
    | .error _ => []
  | _ => []

/-- The question leaves all texts alone, and reads none. -/
def Query.Spares (q : Query) : Prop :=
  ∀ p : Page, touches p q = [] ∧ ∀ id, ((p.answer q).2.element id).value = (p.element id).value

/-- What is seen of the texts of elements. -/
structure Seen where
  text : ElementId → String
  log : List (Touch (Option ElementId))

/-- What a recorded page shows of the texts of elements. -/
def seen (x : Page × List (Moment Query Page)) : Seen :=
  ⟨fun id => (x.1.element id).value, x.2.flatMap fun m => touches m.world m.query⟩

/-- What a recorded page shows of the texts of elements, for whoever fills them. -/
def sheet (patience : Nat) : Sheet (backend patience).recorded where
  View := Seen
  Element := Option ElementId
  view := seen
  element := Handle.element?
  text v e := e.elim "" v.text
  log := Seen.log

/-- What is seen after a question. -/
theorem seen_answer (p : Page) (record : List (Moment Query Page)) (q : Query) :
    seen ((p.answer q).2, record ++ [⟨p, q⟩]) =
      ⟨fun id => ((p.answer q).2.element id).value, (seen (p, record)).log ++ touches p q⟩ := by
  unfold seen
  rw [List.flatMap_append, List.flatMap_singleton]

theorem kept_seen (v : Seen) : KeptBy (backend patience).recorded Query.Spares fun x => seen x = v := by
  intro (q : Query) (x : Page × List (Moment Query Page)) hq hx
  subst hx
  refine (seen_answer x.1 x.2 q).trans ?_
  rw [(hq x.1).1, List.append_nil]
  exact congrArg (Seen.mk · _) (funext (hq x.1).2)

/-! ### What leaves texts alone -/

/-- A change from outside that does not set a text leaves the texts of elements. -/
theorem value_on {c : Change} (hc : ∀ id text, c ≠ .setValue id text) (id : ElementId) (e : Element) :
    (c.on id e).value = e.value := by
  cases c with
  | setValue reached text => exact absurd rfl (hc reached text)
  | setDisabled | setVisible | setJson | leaveViewport | setUnstable =>
    dsimp only [Change.on]
    split <;> rfl
  | _ => rfl

theorem spares_change {c : Change} (hc : ∀ id text, c ≠ .setValue id text) : (Query.change c).Spares := by
  refine fun p => ⟨rfl, fun id => ?_⟩
  show ((c.apply p).element id).value = _
  rw [element_apply, value_on hc]

theorem spares_looks (q : Query) (h : q.looks = true) : q.Spares := by
  intro p
  refine ⟨?_, fun id => ?_⟩
  · cases q with
    | evaluate | typeText | select => exact absurd h nofun
    | _ => rfl
  · unfold Page.element
    rw [elements_answer (q.aside_of_looks h) (q.ne_change_of_looks h) p]

theorem spares_touch {q : Query} {h : Handle} {change : Element → Element} (hq : q.touch? = some (h, change))
    (hvalue : ∀ e, (change e).value = e.value) (htouches : ∀ p, touches p q = []) : q.Spares := by
  refine fun p => ⟨htouches p, fun id => ?_⟩
  rw [answer_touch hq, element_reach]
  split
  · exact hvalue _
  · rfl

/-- The functions by which a locator looks whether an element is fit, and of which kind. -/
theorem spares_evaluate {script : String} (h : Handle) (args : List (Argument Handle))
    (hscript : script ∈ [ElementScript.isStable, ElementScript.isDisabled, ElementScript.fillKind]) :
    (Query.evaluate h script args).Spares := by
  refine spares_touch rfl (fun e => ?_) fun p => ?_
  · unfold Element.evaluate
    simp only [List.mem_cons, List.not_mem_nil, or_false] at hscript
    rcases hscript with rfl | rfl | rfl
    · rw [if_pos rfl]
      split <;> rfl
    · rw [if_neg (by decide), if_pos rfl]
    · rw [if_neg (by decide), if_neg (by decide), if_pos rfl]
  · show scriptTouches p h script args = []
    unfold scriptTouches
    simp only [List.mem_cons, List.not_mem_nil, or_false] at hscript
    rcases hscript with rfl | rfl | rfl <;>
      rw [if_neg (by decide), if_neg (by decide), if_neg (by decide)]

theorem spares_of_modest {α : Type} {a : side.Action α} (h : Asking Modest a) : a.Innocent Query.Spares :=
  Activity.Asks.mono h fun _ hr q hq => by
    rw [hq] at hr
    exact spares_looks q hr

/-- What locators do with the page to find an element leaves all texts alone. -/
theorem innocent_spares : (browser patience).Innocent Query.Spares where
  dispose := fun _ => spares_of_modest (asking_ask rfl)
  evaluateHandle := fun h script _ =>
    have hmodest : Asking Modest ((realm patience).evaluateHandle h script []) := modest_evaluateHandle h script
    spares_of_modest hmodest
  waitFor := fun script wait _ args => spares_of_modest (modest_waitFor script wait args)
  waitForSelector := fun _ selector wait => spares_of_modest (modest_waitForSelector selector wait)
  waitForFunction := fun _ script _ _ => spares_of_modest (modest_callHandle script)

/-- A question that leaves all texts alone is all that is asked. -/
theorem Query.Spares.only {q : Query} (hq : q.Spares) :
    ∀ q', (.query q : Activity.Request side.signature) = .query q' → Query.Spares q' :=
  fun _ h => Activity.Request.query.inj h ▸ hq

section Fit

variable (o : Locator.Options) (h : Handle)

theorem innocent_inViewport : (Readiness.inViewport (realm patience) o h).Innocent Query.Spares := by
  have hlook : (Query.isInViewport h).Spares := spares_touch rfl (fun _ => rfl) fun _ => rfl
  have hscroll : (Query.scrollIntoView h).Spares := spares_touch rfl (fun _ => rfl) fun _ => rfl
  exact asking_inViewport o hlook.only hscroll.only

theorem innocent_stable : (Readiness.stable (realm patience) o h).Innocent Query.Spares :=
  asking_stable o (spares_evaluate h [] (by simp)).only

theorem innocent_enabled : (Readiness.enabled (realm patience) o h).Innocent Query.Spares :=
  asking_enabled o (spares_evaluate h [] (by simp)).only

end Fit

/-! ### What is done to texts -/

section Makes

variable {α : Type} {known : List Token} {v : Seen} {halting : Seen → Prop}

/-- A question to the page does what it does to the texts. -/
theorem guides_asked {q : Query} {read : q.Answer → Except Error α} {R : Except Error α → List Token → Seen → Prop}
    (h : ∀ p : Page, (∀ id, (p.element id).value = v.text id) →
      R (read (p.answer q).1) known ⟨fun id => ((p.answer q).2.element id).value, v.log ++ touches p q⟩) :
    Guides (backend patience).recorded seen halting R (ask q >>= fun r => Action.ofExcept (read r)) known v := by
  refine guides_query fun x hx => guides_ofExcept ?_
  obtain ⟨p, record⟩ := x
  subst hx
  exact (seen_answer p record q).symm ▸ h p fun _ => rfl

/-- A question that reaches an element through a handle does all that it is for, or none of it. -/
theorem makes_touch {h : Handle} (q : Query) (answer : q.Answer → Except Error α)
    (act : Element → Except Error α × Element) {stops : List (Touch (Option ElementId)) → Prop}
    {whole : List (Touch (Option ElementId))} {text : String} {R : α → Prop}
    (hanswer : ∀ p : Page, (answer (p.answer q).1, (p.answer q).2) = p.onHandle h act)
    (hmissed : ∀ p e, p.elementFor h = .error e → touches p q <+: whole ∧ stops (touches p q))
    (hreached : ∀ p id, p.elementFor h = .ok id → (p.element id).value = v.text id →
      (∃ x e, act (p.element id) = (.ok x, e) ∧ R x ∧ touches p q = whole ∧ e.value = text) ∨
        ∃ err e, act (p.element id) = (.error err, e) ∧ touches p q <+: whole ∧ stops (touches p q)) :
    (sheet patience).Makes stops whole h.element? text R (ask q >>= fun r => Action.ofExcept (answer r)) v := by
  intro known
  refine guides_asked fun p hp => ?_
  obtain ⟨hfirst, hsecond⟩ := Prod.mk.inj (hanswer p)
  rw [hfirst, hsecond]
  cases hfor : p.elementFor h with
  | error e => exact ⟨_, (hmissed p e hfor).1, (hmissed p e hfor).2, rfl⟩
  | ok id =>
    show EndsIn _ _ (act (p.element id)).1 _ _
    rcases hreached p id hfor (hp id) with ⟨x, e, hact, hx, htouches, htext⟩ | ⟨err, e, hact, hdone, hstops⟩
    · rw [hact]
      refine ⟨hx, congrArg (v.log ++ ·) htouches, ?_⟩
      rw [element?_of_elementFor hfor]
      show ((p.modifyElement id fun _ => (act (p.element id)).2).element id).value = text
      rw [element_modifyElement, if_pos rfl, hact]
      exact htext
    · rw [hact]
      exact ⟨_, hdone, hstops, rfl⟩

variable (h : Handle)

theorem makes_read : (sheet patience).Makes (fun done => True → done = [])
    [.read h.element? ((sheet patience).text v h.element?)] h.element? ((sheet patience).text v h.element?)
    (fun doc => doc = .string ((sheet patience).text v h.element?)) ((realm patience).evaluate h ElementScript.text []) v := by
  have htouches (p : Page) : touches p (.evaluate h ElementScript.text []) = match p.elementFor h with
      | .ok id => [.read (some id) (p.element id).value]
      | .error _ => [] := by
    show scriptTouches p h ElementScript.text [] = _
    exact if_pos rfl
  refine makes_touch (.evaluate h ElementScript.text []) id
    (fun e => e.evaluate ElementScript.text ([] : List (Argument Handle)))
    (fun _ => rfl) (fun p e hfor => ?_) fun p id hfor hvalue => ?_
  · rw [htouches, hfor]
    exact ⟨List.nil_prefix, fun _ => rfl⟩
  · rw [htouches, hfor, element?_of_elementFor hfor]
    refine .inl ⟨_, _, evaluate_text (p.element id) [], ?_⟩
    exact ⟨congrArg Json.string hvalue, congrArg (fun text => [Touch.read (some id) text]) hvalue, hvalue⟩

theorem makes_clear : (sheet patience).Makes (fun done => True → done ≠ []) [.clear h.element?] h.element? ""
    (fun _ => True) ((realm patience).evaluate h ElementScript.clear []) v := by
  have htouches (p : Page) : touches p (.evaluate h ElementScript.clear []) = [.clear h.element?] := by
    show scriptTouches p h ElementScript.clear [] = _
    unfold scriptTouches
    rw [if_neg (by decide), if_pos rfl]
  refine makes_touch (.evaluate h ElementScript.clear []) id
    (fun e => e.evaluate ElementScript.clear ([] : List (Argument Handle)))
    (fun _ => rfl) (fun p e hfor => ?_) fun p id hfor hvalue => ?_
  · rw [htouches]
    exact ⟨List.prefix_rfl, fun _ => nofun⟩
  · have hclear : (p.element id).evaluate ElementScript.clear ([] : List (Argument Handle)) =
        (.ok .null, { p.element id with value := "", clears := (p.element id).clears + 1 }) := by
      unfold Element.evaluate
      rw [if_neg (by decide), if_neg (by decide), if_neg (by decide), if_neg (by decide), if_pos rfl]
    exact .inl ⟨_, _, hclear, trivial, htouches p, rfl⟩

theorem makes_type (text : String) : (sheet patience).Makes (fun _ => True) (keys h.element? text) h.element?
    ((sheet patience).text v h.element? ++ text) (fun _ => True) ((realm patience).typeText h text) v := by
  refine makes_touch (.typeText h text) id (fun e => (.ok (), e.typeText text))
    (fun _ => rfl) (fun p e hfor => ?_) fun p id hfor hvalue => ?_
  · simp only [touches, hfor]
    exact ⟨List.nil_prefix, trivial⟩
  · rw [element?_of_elementFor hfor]
    simp only [touches, hfor]
    exact .inl ⟨_, _, rfl, trivial, rfl, congrArg (· ++ text) hvalue⟩

theorem makes_select (text : String) : (sheet patience).Makes (fun _ => True) [.set h.element? text] h.element? text
    (fun _ => True) ((realm patience).select h [text]) v := by
  refine makes_touch (.select h [text]) id (fun e => e.select [text])
    (fun _ => rfl) (fun p e hfor => ?_) fun p id hfor hvalue => ?_
  · simp only [touches, hfor]
    exact ⟨List.nil_prefix, trivial⟩
  · simp only [touches, hfor]
    unfold Element.select
    by_cases hkind : (p.element id).kind = .select
    · rw [if_pos hkind, if_pos hkind, element?_of_elementFor hfor]
      exact .inl ⟨_, _, rfl, trivial, rfl, rfl⟩
    · rw [if_neg hkind, if_neg hkind]
      exact .inr ⟨_, _, rfl, List.nil_prefix, trivial⟩

theorem makes_assign (text : String) : (sheet patience).Makes (fun _ => True) [.set h.element? text] h.element? text
    (fun _ => True) ((realm patience).evaluate h ElementScript.assign [.value (.string text)]) v := by
  have htouches (p : Page) : touches p (.evaluate h ElementScript.assign [.value (.string text)]) =
      match p.elementFor h with
      | .ok id => [.set (some id) text]
      | .error _ => [] := by
    show scriptTouches p h ElementScript.assign [.value (.string text)] = _
    unfold scriptTouches
    rw [if_neg (by decide), if_neg (by decide), if_pos rfl]
    rfl
  refine makes_touch (.evaluate h ElementScript.assign [.value (.string text)]) id
    (fun e => e.evaluate ElementScript.assign ([.value (.string text)] : List (Argument Handle)))
    (fun _ => rfl) (fun p e hfor => ?_) fun p id hfor hvalue => ?_
  · rw [htouches, hfor]
    exact ⟨List.nil_prefix, trivial⟩
  · have hassign : (p.element id).evaluate ElementScript.assign ([.value (.string text)] : List (Argument Handle)) =
        (.ok .null, { p.element id with value := text, assigned := (p.element id).assigned ++ [text] }) := by
      unfold Element.evaluate
      rw [if_neg (by decide), if_neg (by decide), if_neg (by decide), if_neg (by decide), if_neg (by decide),
        if_pos rfl]
      rfl
    rw [htouches, hfor, element?_of_elementFor hfor]
    exact .inl ⟨_, _, hassign, trivial, rfl, rfl⟩

end Makes

/-- Nobody sets the text of an element from outside. -/
def Scene.Unwritten (s : Scene) : Prop := ∀ id text, ¬ s.Expects (.setValue id text)

theorem Scene.Unwritten.spares {s : Scene} (hs : s.Unwritten) (c : Change) (hc : s.Expects c) :
    (Query.change c).Spares :=
  spares_change fun id text hsame => hs id text (hsame ▸ hc)

/-- Elements of the simulated page can be filled, where nobody else sets their texts. -/
theorem Scene.Unwritten.fillable {s : Scene} (hs : s.Unwritten) :
    (sheet patience).Fillable (browser patience) s.Permits Query.Spares True True where
  browser := innocent_spares
  asks := fun l desired signal => (inner_perform l (.fill desired) signal).mono fun _ hr => hr.permits
  tames := (tames_scene spares_looks hs.spares).recorded
  kept := kept_seen
  inViewport := innocent_inViewport
  stable := innocent_stable
  enabled := innocent_enabled
  kind := fun h known v => by
    have hkind : ((realm patience).evaluate h ElementScript.fillKind []).Innocent Query.Spares :=
      asking_asked (q := .evaluate h ElementScript.fillKind []) (spares_evaluate h [] (by simp)).only id
    have hstill : Guides (backend patience).recorded seen (· = v) (fun _ more u => u = v ∧ known ⊆ more)
        ((realm patience).evaluate h ElementScript.fillKind []) known v := guides_innocent hkind kept_seen rfl
    exact hstill.mono fun _ _ _ hr => ⟨hr.1, fun _ _ _ _ => .inl trivial⟩
  reads := fun h _ => makes_read h
  clears := fun h _ => makes_clear h
  types := fun h text _ => makes_type h text
  selects := fun _ h text _ => makes_select h text
  assigns := fun _ h text v known => by
    have hspares : (Query.focus h).Spares := spares_touch rfl (fun _ => rfl) fun _ => rfl
    have hfocus : ((realm patience).focus h).Innocent Query.Spares :=
      asking_asked (q := .focus h) hspares.only id
    have hnothing : (sheet patience).Partly (fun _ => True) [.set h.element? text] v v :=
      ⟨[], List.nil_prefix, trivial, (List.append_nil _).symm⟩
    refine (guides_innocent hfocus kept_seen hnothing).andThen ?_ fun e more u hr => hr.1 ▸ hnothing
    rintro _ more u ⟨hu, -⟩
    subst hu
    exact (makes_assign h text more).andThen (fun _ _ _ hr => ⟨trivial, hr.2⟩) fun _ _ _ hr => hr

end Wayfind.Simulation
