/-
What is done to elements, and what the page knows of it.

A `Deed` is what an action is for: a click, a hover, a scroll, a value given.  It is done
by a single question to the page, and the page enters it in the record of the element
(`record_answer`); no other question changes these records.  Questions that reach an
element through its handle change nothing else that an action looks at before
(`Carries`).
-/
import Mathlib.Data.Multiset.Bind
import Mathlib.Tactic.Abel
import Wayfind.Proofs.Activity.Recording
import Wayfind.Proofs.Page.Ledger
import Wayfind.Simulation.Side

namespace Wayfind.Simulation

/-- Something done to an element. -/
inductive Deed where
  | click (options : ClickOptions)
  | hover
  | scroll (top left : Option Float)
  | select (values : List String)
  | assign (value : String)
  | clear
  | type (text : String)

/-- What an element's record says was done to it. -/
def Element.record (e : Element) : Multiset Deed :=
  (e.clicks.map Deed.click : List Deed) + Multiset.replicate e.hovers Deed.hover +
    (e.scrolls.map fun place => Deed.scroll place.1 place.2 : List Deed) +
    (e.selected.map Deed.select : List Deed) + (e.assigned.map Deed.assign : List Deed) +
    Multiset.replicate e.clears Deed.clear + (e.typed.map Deed.type : List Deed)

/-- What a page function does to the element it is called on. -/
def scriptDeed? (script : String) (args : List (Argument Handle)) : Option Deed :=
  if script = ElementScript.isStable then none
  else if script = ElementScript.isDisabled then none
  else if script = ElementScript.fillKind then none
  else if script = ElementScript.text then none
  else if script = ElementScript.clear then some .clear
  else if script = ElementScript.assign then
    some (.assign ((Element.argument args 0).string?.getD ""))
  else if script = ElementScript.scroll then
    some (.scroll (Element.argument args 0).float? (Element.argument args 1).float?)
  else none

namespace Query

/-- The handle through which a question reaches an element, and what becomes of the element. -/
def touch? : Query → Option (Handle × (Element → Element))
  | evaluate h script args => some (h, fun e => (e.evaluate script args).2)
  | click h options => some (h, fun e => (e.click options).2)
  | hover h => some (h, fun e => { e with hovers := e.hovers + 1 })
  | focus h => some (h, fun e => { e with focuses := e.focuses + 1 })
  | typeText h text => some (h, fun e => e.typeText text)
  | select h values => some (h, fun e => (e.select values).2)
  | scrollIntoView h => some (h, Element.scrollIntoView)
  | isInViewport h => some (h, fun e => e)
  | _ => none

/-- The question reaches an element through the handle. -/
def About (h : Handle) (q : Query) : Prop := ∃ change, q.touch? = some (h, change)

/-- The deed that a question does to an element in such a state. -/
def deedOn? (e : Element) : Query → Option Deed
  | evaluate _ script args => scriptDeed? script args
  | click _ options => if e.visible then some (.click options) else none
  | hover _ => some .hover
  | typeText _ text => some (.type text)
  | select _ values => if e.kind = .select then some (.select values) else none
  | _ => none

/-- The deed that a question does on a page, and the element it is done to. -/
def deed? (p : Page) (q : Query) : Option (ElementId × Deed) :=
  match q.touch? with
  | none => none
  | some (h, _) =>
    match p.elementFor h with
    | .error _ => none
    | .ok id => (q.deedOn? (p.element id)).map fun deed => (id, deed)

/-- The question does nothing to any element. -/
def Gentle (q : Query) : Prop := ∀ e, q.deedOn? e = none

/-- The question reaches no element through a handle. -/
def Aside (q : Query) : Prop := q.touch? = none

theorem Aside.gentle {q : Query} (h : q.Aside) : q.Gentle := by
  intro e
  cases q with
  | evaluate | click | hover | focus | typeText | select | scrollIntoView | isInViewport =>
    exact absurd h nofun
  | _ => rfl

theorem Gentle.deed? {q : Query} (h : q.Gentle) (p : Page) : q.deed? p = none := by
  unfold Query.deed?
  split
  · rfl
  · split
    · rfl
    · rw [h]
      rfl

end Query

/-! ### Elements that are reached through a handle -/

/-- What an action may look at has not changed, but the element may have come into the viewport. -/
structure Element.Carries (e after : Element) : Prop where
  kind : after.kind = e.kind
  disabled : after.disabled = e.disabled
  visible : after.visible = e.visible
  inViewport : e.inViewport = true → after.inViewport = true

theorem Element.Carries.refl (e : Element) : e.Carries e := ⟨rfl, rfl, rfl, id⟩

theorem Element.Carries.trans {e mid after : Element} (h : e.Carries mid) (h' : mid.Carries after) :
    e.Carries after :=
  ⟨h'.kind.trans h.kind, h'.disabled.trans h.disabled, h'.visible.trans h.visible,
    fun hin => h'.inViewport (h.inViewport hin)⟩

theorem carries_evaluate (e : Element) (script : String) (args : List (Argument Handle)) :
    e.Carries (e.evaluate script args).2 := by
  unfold Element.evaluate
  repeat' split
  all_goals exact ⟨rfl, rfl, rfl, id⟩

theorem carries_touch {q : Query} {h : Handle} {change : Element → Element}
    (hq : q.touch? = some (h, change)) (e : Element) : e.Carries (change e) := by
  cases q with
  | evaluate h script args =>
    obtain ⟨-, rfl⟩ := Prod.mk.inj (Option.some.inj hq)
    exact carries_evaluate e script args
  | click h options =>
    obtain ⟨-, rfl⟩ := Prod.mk.inj (Option.some.inj hq)
    dsimp only [Element.click]
    split <;> exact ⟨rfl, rfl, rfl, id⟩
  | select h values =>
    obtain ⟨-, rfl⟩ := Prod.mk.inj (Option.some.inj hq)
    dsimp only [Element.select]
    split <;> exact ⟨rfl, rfl, rfl, id⟩
  | scrollIntoView h =>
    obtain ⟨-, rfl⟩ := Prod.mk.inj (Option.some.inj hq)
    exact ⟨rfl, rfl, rfl, fun _ => rfl⟩
  | hover h | focus h | typeText h text | isInViewport h =>
    obtain ⟨-, rfl⟩ := Prod.mk.inj (Option.some.inj hq)
    exact ⟨rfl, rfl, rfl, id⟩
  | _ => exact absurd hq nofun

theorem coe_map_concat {γ : Type} (entries : List γ) (entry : γ) (f : γ → Deed) :
    (((entries ++ [entry]).map f : List Deed) : Multiset Deed) =
      ((entries.map f : List Deed) : Multiset Deed) + {f entry} := by
  rw [List.map_append, ← Multiset.coe_add]
  rfl

theorem replicate_succ_deed (n : Nat) (deed : Deed) :
    Multiset.replicate (n + 1) deed = Multiset.replicate n deed + {deed} :=
  Multiset.replicate_add n 1 deed

theorem record_evaluate (e : Element) (script : String) (args : List (Argument Handle)) :
    (e.evaluate script args).2.record = e.record + ofOption (scriptDeed? script args) := by
  unfold Element.evaluate scriptDeed?
  repeat' split
  all_goals first
    | exact (add_zero _).symm
    | (simp only [Element.record, coe_map_concat, replicate_succ_deed, ofOption_some]
       abel)

/-- The deed of a question is entered in the record of the element, and nothing else is. -/
theorem record_touch {q : Query} {h : Handle} {change : Element → Element}
    (hq : q.touch? = some (h, change)) (e : Element) :
    (change e).record = e.record + ofOption (q.deedOn? e) := by
  cases q with
  | evaluate h script args =>
    obtain ⟨-, rfl⟩ := Prod.mk.inj (Option.some.inj hq)
    exact record_evaluate e script args
  | click h options =>
    obtain ⟨-, rfl⟩ := Prod.mk.inj (Option.some.inj hq)
    simp only [Element.click, Query.deedOn?]
    split
    · simp only [Element.record, coe_map_concat, ofOption_some]
      abel
    · exact (add_zero _).symm
  | select h values =>
    obtain ⟨-, rfl⟩ := Prod.mk.inj (Option.some.inj hq)
    simp only [Element.select, Query.deedOn?]
    split
    · simp only [Element.record, coe_map_concat, ofOption_some]
      abel
    · exact (add_zero _).symm
  | typeText h text =>
    obtain ⟨-, rfl⟩ := Prod.mk.inj (Option.some.inj hq)
    simp only [Element.typeText, Query.deedOn?, Element.record, coe_map_concat,
      ofOption_some]
    abel
  | hover h =>
    obtain ⟨-, rfl⟩ := Prod.mk.inj (Option.some.inj hq)
    simp only [Query.deedOn?, Element.record, replicate_succ_deed, ofOption_some]
    abel
  | scrollIntoView h | focus h | isInViewport h =>
    obtain ⟨-, rfl⟩ := Prod.mk.inj (Option.some.inj hq)
    exact (add_zero _).symm
  | _ => exact absurd hq nofun

/-! ### Pages -/

/-- Changes the element behind a handle, if there is one. -/
def Page.reach (p : Page) (h : Handle) (change : Element → Element) : Page :=
  match p.elementFor h with
  | .error _ => p
  | .ok id => p.modifyElement id fun _ => change (p.element id)

theorem answer_touch {q : Query} {h : Handle} {change : Element → Element}
    (hq : q.touch? = some (h, change)) (p : Page) : (p.answer q).2 = p.reach h change := by
  have honHandle : ∀ {α : Type} (act : Element → Except Error α × Element),
      (p.onHandle h act).2 = p.reach h fun e => (act e).2 := by
    intro α act
    unfold Page.onHandle Page.reach
    cases p.elementFor h <;> rfl
  cases q with
  | evaluate | click | select | scrollIntoView | hover | focus | typeText | isInViewport =>
    obtain ⟨rfl, rfl⟩ := Prod.mk.inj (Option.some.inj hq)
    exact honHandle _
  | _ => exact absurd hq nofun

/-- A change of an element is there to be seen, and changes no other. -/
theorem element_modifyElement (p : Page) (id other : ElementId) (change : Element → Element) :
    (p.modifyElement id change).element other =
      if id = other then change (p.element other) else p.element other := by
  have hblank : ∀ blanks : Nat, (p.elements ++ Array.replicate blanks default)[other]?.getD default =
      p.element other := by
    intro blanks
    unfold Page.element
    rw [Array.getElem?_append]
    by_cases hlt : other < p.elements.size
    · rw [if_pos hlt]
    · rw [if_neg hlt, Array.getElem?_replicate, Array.getElem?_eq_none (Nat.not_lt.mp hlt)]
      split <;> rfl
  unfold Page.modifyElement
  dsimp only
  generalize hstore : p.elements ++ Array.replicate (id + 1 - p.elements.size) default = store
  have hsame : (store[other]?).getD default = p.element other := hstore ▸ hblank _
  show ((store.modify id change)[other]?).getD default = _
  rw [Array.getElem?_modify]
  by_cases hid : id = other
  · have hlt : other < store.size := by
      rw [← hstore, Array.size_append, Array.size_replicate, hid]
      exact Nat.sub_le_iff_le_add'.mp (Nat.le_refl _)
    rw [Array.getElem?_eq_getElem hlt] at hsame ⊢
    rw [if_pos hid, if_pos hid, ← hsame]
    rfl
  · rw [if_neg hid, if_neg hid]
    exact hsame

/-- Only the element behind the handle changes. -/
theorem element_reach (p : Page) (h : Handle) (change : Element → Element) (id : ElementId) :
    (p.reach h change).element id =
      if p.elementFor h = .ok id then change (p.element id) else p.element id := by
  unfold Page.reach
  cases p.elementFor h with
  | error e => exact (if_neg nofun).symm
  | ok reached =>
    dsimp only
    rw [element_modifyElement]
    by_cases hid : reached = id
    · rw [hid, if_pos rfl, if_pos rfl]
    · rw [if_neg hid, if_neg fun hc => hid (Except.ok.inj hc)]

theorem elements_call (p : Page) (script : String) : (p.call script).2.elements = p.elements := by
  unfold Page.call
  split
  · rfl
  · split <;> rfl

theorem elements_newHandles (targets : List Target) (p : Page) :
    (p.newHandles targets).2.elements = p.elements := by
  induction targets generalizing p with
  | nil => rfl
  | cons target rest ih => exact ih (p.newHandle target).2

/-- A question that reaches no element changes none, unless it is a change from outside. -/
theorem elements_answer {q : Query} (hq : q.touch? = none) (hchange : ∀ c, q ≠ .change c)
    (p : Page) : (p.answer q).2.elements = p.elements := by
  cases q with
  | look selector wait =>
    simp only [Page.answer, Page.look]
    split
    · rfl
    · split <;> split <;> rfl
  | find selector =>
    simp only [Page.answer, Page.find]
    split <;> rfl
  | call script => exact elements_call p script
  | callHandle script =>
    have hcall := elements_call p script
    simp only [Page.answer, Page.callHandle]
    rcases hc : p.call script with ⟨r, p'⟩
    rw [hc] at hcall
    cases r with
    | ok target => exact hcall
    | error e => exact hcall
  | newHandles targets => exact elements_newHandles targets p
  | holds script id =>
    simp only [Page.answer, Page.holds]
    split <;> rfl
  | mapHandle h script =>
    simp only [Page.answer, Page.mapHandle]
    split
    · rfl
    · split <;> rfl
  | change c => exact absurd rfl (hchange c)
  | evaluate | click | hover | focus | typeText | select | scrollIntoView | isInViewport =>
    exact absurd hq nofun
  | _ => rfl

/-- What a change from outside makes of an element. -/
def Change.on (c : Change) (id : ElementId) (e : Element) : Element :=
  match c with
  | setDisabled reached value => if reached = id then { e with disabled := value } else e
  | setVisible reached value => if reached = id then { e with visible := value } else e
  | setValue reached text => if reached = id then { e with value := text } else e
  | setJson reached value => if reached = id then { e with json := value } else e
  | leaveViewport reached => if reached = id then { e with inViewport := false } else e
  | setUnstable reached checks => if reached = id then { e with unstable := checks } else e
  | _ => e

theorem element_apply (c : Change) (p : Page) (id : ElementId) :
    (c.apply p).element id = c.on id (p.element id) := by
  cases c with
  | setDisabled | setVisible | setValue | setJson | leaveViewport | setUnstable =>
    exact element_modifyElement ..
  | _ => rfl

/-- A change from outside does nothing that an element's record would tell. -/
theorem record_change (c : Change) (p : Page) (id : ElementId) :
    ((c.apply p).element id).record = (p.element id).record := by
  rw [element_apply]
  cases c with
  | setDisabled | setVisible | setValue | setJson | leaveViewport | setUnstable =>
    dsimp only [Change.on]
    split <;> rfl
  | _ => rfl

/-- The deeds among some that were done to one element. -/
def deedsOn (id : ElementId) (deeds : List (ElementId × Deed)) : Multiset Deed :=
  (deeds.filterMap fun d => if d.1 = id then some d.2 else none : List Deed)

theorem deedsOn_append (id : ElementId) (first second : List (ElementId × Deed)) :
    deedsOn id (first ++ second) = deedsOn id first + deedsOn id second := by
  simp [deedsOn]

/-- What a question does is entered in the record of the element it does it to. -/
theorem record_answer (p : Page) (q : Query) (id : ElementId) :
    ((p.answer q).2.element id).record =
      (p.element id).record + deedsOn id (q.deed? p).toList := by
  rcases hq : q.touch? with _ | ⟨h, change⟩
  · have hdeed : q.deed? p = none := by simp [Query.deed?, hq]
    have hnone : deedsOn id (q.deed? p).toList = 0 := by
      rw [hdeed]
      rfl
    rw [hnone, add_zero]
    by_cases hchange : ∃ c, q = .change c
    · obtain ⟨c, rfl⟩ := hchange
      exact record_change c p id
    · have hsame := elements_answer hq (fun c hc => hchange ⟨c, hc⟩) p
      rw [Page.element, hsame]
      rfl
  · rw [answer_touch hq, element_reach]
    by_cases hfor : p.elementFor h = .ok id
    · have hdeed : q.deed? p = (q.deedOn? (p.element id)).map fun deed => (id, deed) := by
        simp only [Query.deed?, hq, hfor]
      rw [if_pos hfor, record_touch hq, hdeed]
      congr 1
      cases q.deedOn? (p.element id) with
      | none => rfl
      | some deed => simp [deedsOn]
    · have hnone : deedsOn id (q.deed? p).toList = 0 := by
        simp only [Query.deed?, hq]
        cases hreached : p.elementFor h with
        | error e => rfl
        | ok reached =>
          have hne : reached ≠ id := fun hc => hfor (hreached.trans (congrArg Except.ok hc))
          dsimp only
          cases q.deedOn? (p.element reached) with
          | none => rfl
          | some deed => simp [deedsOn, hne]
      rw [if_neg hfor, hnone, add_zero]

/-! ### The page functions of an attempt -/

section Scripts

variable (e : Element) (args : List (Argument Handle))

theorem evaluate_isStable (hok : (e.evaluate ElementScript.isStable args).1 = .ok (.bool true)) :
    e.unstable = 0 := by
  unfold Element.evaluate at hok
  rw [if_pos rfl] at hok
  by_cases hmoving : e.unstable > 0
  · rw [if_pos hmoving] at hok
    exact absurd hok (by simp)
  · omega

theorem evaluate_isDisabled :
    e.evaluate ElementScript.isDisabled args = (.ok (.bool e.disabled), e) := by
  unfold Element.evaluate
  rw [if_neg (by decide), if_pos rfl]

theorem evaluate_fillKind :
    e.evaluate ElementScript.fillKind args = (.ok (.string e.kind.name), e) := by
  unfold Element.evaluate
  rw [if_neg (by decide), if_neg (by decide), if_pos rfl]

theorem evaluate_text : e.evaluate ElementScript.text args = (.ok (.string e.value), e) := by
  unfold Element.evaluate
  rw [if_neg (by decide), if_neg (by decide), if_neg (by decide), if_pos rfl]

theorem evaluate_clear : (e.evaluate ElementScript.clear args).1 = .ok .null := by
  unfold Element.evaluate
  rw [if_neg (by decide), if_neg (by decide), if_neg (by decide), if_neg (by decide), if_pos rfl]

theorem evaluate_assign : (e.evaluate ElementScript.assign args).1 = .ok .null := by
  unfold Element.evaluate
  rw [if_neg (by decide), if_neg (by decide), if_neg (by decide), if_neg (by decide),
    if_neg (by decide), if_pos rfl]

theorem evaluate_scroll : (e.evaluate ElementScript.scroll args).1 = .ok .null := by
  unfold Element.evaluate
  rw [if_neg (by decide), if_neg (by decide), if_neg (by decide), if_neg (by decide),
    if_neg (by decide), if_neg (by decide), if_pos rfl]

theorem scriptDeed_assign : scriptDeed? ElementScript.assign args =
    some (.assign ((Element.argument args 0).string?.getD "")) := by
  unfold scriptDeed?
  rw [if_neg (by decide), if_neg (by decide), if_neg (by decide), if_neg (by decide),
    if_neg (by decide), if_pos rfl]

theorem scriptDeed_scroll : scriptDeed? ElementScript.scroll args =
    some (.scroll (Element.argument args 0).float? (Element.argument args 1).float?) := by
  unfold scriptDeed?
  rw [if_neg (by decide), if_neg (by decide), if_neg (by decide), if_neg (by decide),
    if_neg (by decide), if_neg (by decide), if_pos rfl]

/-- The functions by which a locator looks at an element do nothing to it. -/
theorem gentle_evaluate {script : String}
    (hscript : script ∈ [ElementScript.isStable, ElementScript.isDisabled, ElementScript.fillKind,
      ElementScript.text]) : ∀ h : Handle, (Query.evaluate h script args).Gentle := by
  intro h e
  show scriptDeed? script args = none
  unfold scriptDeed?
  simp only [List.mem_cons, List.not_mem_nil, or_false] at hscript
  rcases hscript with rfl | rfl | rfl | rfl
  · rw [if_pos rfl]
  · rw [if_neg (by decide), if_pos rfl]
  · rw [if_neg (by decide), if_neg (by decide), if_pos rfl]
  · rw [if_neg (by decide), if_neg (by decide), if_neg (by decide), if_pos rfl]

theorem ofJson_name (kind : FillKind) : FillKind.ofJson? (.string kind.name) = some kind := by
  cases kind <;> rfl

end Scripts

end Wayfind.Simulation
