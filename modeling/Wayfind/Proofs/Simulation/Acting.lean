/-
What an attempt does to the element it has found.

From the first check to the deed nothing else runs: every question is about the one handle,
and none of them waits (`Does`).  So what the checks have found is still so when the deed
is done, and a deed that has been done is not taken back by a later failure.  `does_act`
says it all: an attempt that fails at any point has done nothing, and one that succeeds
has done exactly what the operation is for, after its checks (`Performed`).
-/
import Wayfind.Proofs.Simulation.Asking

namespace Wayfind.Simulation

open Activity (Moment Steady)
open PageSide (Action)

/-- A question to the page at the instant when it was asked. -/
abbrev PageMoment : Type := Moment Query Page

/-- The deeds among what the page was asked, in order. -/
def deeds (moments : List PageMoment) : List (ElementId × Deed) :=
  moments.filterMap fun m => m.query.deed? m.world

theorem deeds_append (first second : List PageMoment) :
    deeds (first ++ second) = deeds first ++ deeds second := List.filterMap_append

theorem quiet_append {first second : List PageMoment} (hfirst : deeds first = [])
    (hsecond : deeds second = []) : deeds (first ++ second) = [] := by
  rw [deeds_append, hfirst, hsecond]
  rfl

variable {patience : Nat} {α β : Type} {h : Handle}

/-! ### One handle -/

/-- The activity asks only about the handle and does not wait; with what it has asked before and the
page as it is now, it ends as it should. -/
def Does (h : Handle) (Q : α → List PageMoment → Page → Prop) :
    side.Task α → List PageMoment → Page → Prop
  | .done a, moments, p => Q a moments p
  | .ask (.query q) _ _ next _, moments, p => Query.About h q ∧
      Does h Q (next (p.answer q).1) (moments ++ [⟨p, q⟩]) (p.answer q).2
  | .ask .announce _ _ next _, moments, p => Does h Q (next ()) moments p
  | .ask _ _ _ _ _, _, _ => False

section Does

variable {Q : β → List PageMoment → Page → Prop} {moments : List PageMoment} {p : Page}

theorem Does.mono {Q' : β → List PageMoment → Page → Prop} {t : side.Task β}
    (ht : Does h Q t moments p) (hQ : ∀ b moments p, Q b moments p → Q' b moments p) :
    Does h Q' t moments p := by
  induction t generalizing moments p with
  | done b => exact hQ b moments p ht
  | ask r ws duties next stop ihn ihs =>
    cases r with
    | query q => exact ⟨ht.1, ihn _ ht.2⟩
    | announce => exact ihn _ ht
    | _ => exact absurd ht id

theorem does_bind {t : side.Task α} {f : α → side.Task β} :
    Does h Q (Activity.bind t f) moments p ↔
      Does h (fun a moments p => Does h Q (f a) moments p) t moments p := by
  induction t generalizing moments p with
  | done a => exact Iff.rfl
  | ask r ws duties next stop ihn ihs =>
    cases r with
    | query q => exact and_congr Iff.rfl (ihn _)
    | announce => exact ihn _
    | _ => exact Iff.rfl

/-- What was asked before can be left aside. -/
theorem does_append (before : List PageMoment) {t : side.Task β} :
    Does h Q t (before ++ moments) p ↔
      Does h (fun b moments p => Q b (before ++ moments) p) t moments p := by
  induction t generalizing moments p with
  | done b => exact Iff.rfl
  | ask r ws duties next stop ihn ihs =>
    cases r with
    | query q =>
      simp only [Does]
      rw [List.append_assoc]
      exact and_congr Iff.rfl (ihn _)
    | announce => exact ihn _
    | _ => exact Iff.rfl

/-- Within a longer activity it ends as it should, whatever was asked before. -/
theorem Does.steady {I : Page × List PageMoment → Prop} {Q' : β → Page × List PageMoment → Prop}
    {t : side.Task β} (ht : Does h Q t moments p) (before : List PageMoment)
    (hQ : ∀ b moments p, Q b moments p → Q' b (p, before ++ moments)) :
    Steady (backend patience).recorded I Q' t (p, before ++ moments) := by
  induction t generalizing moments p with
  | done b => exact hQ b moments p ht
  | ask r ws duties next stop ihn ihs =>
    cases r with
    | query q =>
      refine ⟨?_, nofun⟩
      rintro a v ⟨rfl, rfl⟩
      have hnext := ihn _ ht.2
      rw [← List.append_assoc] at hnext
      exact hnext
    | announce =>
      refine ⟨?_, nofun⟩
      rintro a v rfl
      exact ihn _ ht
    | _ => exact absurd ht id

end Does

section Rules

variable {Q : Except Error β → List PageMoment → Page → Prop} {moments : List PageMoment} {p : Page}

theorem does_andThen {a : side.Action α} {f : α → side.Action β}
    (ha : Does h (fun r moments p => match r with
      | .ok v => Does h Q (f v).outcome moments p
      | .error e => Q (.error e) moments p) a.outcome moments p) :
    Does h Q (a >>= f).outcome moments p := by
  rw [outcome_bind, does_bind]
  refine ha.mono fun r moments p hr => ?_
  cases r with
  | ok v => exact hr
  | error e => exact hr

theorem does_announce {f : Unit → side.Action β} (hf : Does h Q (f ()).outcome moments p) :
    Does h Q (Action.perform .announce >>= f).outcome moments p :=
  does_andThen hf

/-- A question about the handle, with its failure. -/
theorem does_ask {q : Query} {f : q.Answer → Except Error β} (hq : q.About h)
    (hend : Q (f (p.answer q).1) (moments ++ [⟨p, q⟩]) (p.answer q).2) :
    Does h Q (ask q >>= fun a => Action.ofExcept (f a)).outcome moments p := by
  refine does_andThen ⟨hq, ?_⟩
  show Does h Q (Action.ofExcept (f (p.answer q).1)).outcome _ _
  rw [outcome_ofExcept]
  exact hend

end Rules

/-! ### What stays as it is -/

/-- From one page to another through questions about handles: a handle stands for what it stood for,
and what an action looks at carries over. -/
structure Page.Carries (p after : Page) : Prop where
  handles : ∀ h, after.elementFor h = p.elementFor h
  elements : ∀ id, (p.element id).Carries (after.element id)

theorem Page.Carries.refl (p : Page) : p.Carries p := ⟨fun _ => rfl, fun _ => .refl _⟩

theorem Page.Carries.trans {p mid after : Page} (h : p.Carries mid) (h' : mid.Carries after) :
    p.Carries after :=
  ⟨fun handle => (h'.handles handle).trans (h.handles handle),
    fun id => (h.elements id).trans (h'.elements id)⟩

theorem carries_answer {q : Query} (hq : q.About h) (p : Page) : p.Carries (p.answer q).2 := by
  obtain ⟨change, hq⟩ := hq
  rw [answer_touch hq]
  refine ⟨fun other => ?_, fun id => ?_⟩
  · have hledger : (p.reach h change).ledger = p.ledger := by
      unfold Page.reach
      split <;> rfl
    unfold Page.elementFor Page.isReleased
    rw [hledger]
  · rw [element_reach]
    by_cases hid : p.elementFor h = .ok id
    · rw [if_pos hid]
      exact carries_touch hq _
    · rw [if_neg hid]
      exact .refl _

/-- The moments so far, all about the handle, and the page since the first of them. -/
structure Course (h : Handle) (start : Page) (moments : List PageMoment) (p : Page) : Prop where
  about : ∀ m ∈ moments, m.query.About h
  then_ : ∀ m ∈ moments, start.Carries m.world
  now : start.Carries p

/-- What only asks about a handle leaves a course behind. -/
theorem Does.course {Q : β → List PageMoment → Page → Prop} {t : side.Task β}
    {moments : List PageMoment} {start p : Page} (ht : Does h Q t moments p)
    (hcourse : Course h start moments p) :
    Does h (fun b moments p => Q b moments p ∧ Course h start moments p) t moments p := by
  induction t generalizing moments p with
  | done b => exact ⟨ht, hcourse⟩
  | ask r ws duties next stop ihn ihs =>
    cases r with
    | query q =>
      refine ⟨ht.1, ihn _ ht.2 ⟨?_, ?_, hcourse.now.trans (carries_answer ht.1 p)⟩⟩
      · intro m hm
        rcases List.mem_append.mp hm with hm | hm
        · exact hcourse.about m hm
        · rw [List.mem_singleton.mp hm]
          exact ht.1
      · intro m hm
        rcases List.mem_append.mp hm with hm | hm
        · exact hcourse.then_ m hm
        · rw [List.mem_singleton.mp hm]
          exact hcourse.now
    | announce => exact ihn _ ht hcourse
    | _ => exact absurd ht id

theorem Course.init (h : Handle) (p : Page) : Course h p [] p := ⟨nofun, nofun, .refl p⟩

/-- One step after the other; each is said of the moments it brings itself. -/
theorem does_step {Q : Except Error β → List PageMoment → Page → Prop} {moments : List PageMoment}
    {p : Page} {a : side.Action α} {f : α → side.Action β}
    {R : Except Error α → List PageMoment → Page → Prop} (ha : Does h R a.outcome [] p)
    (hok : ∀ v steps after, R (.ok v) steps after → Course h p steps after →
      Does h Q (f v).outcome (moments ++ steps) after)
    (herror : ∀ e steps after, R (.error e) steps after → Q (.error e) (moments ++ steps) after) :
    Does h Q (a >>= f).outcome moments p := by
  refine does_andThen ?_
  rw [← List.append_nil moments, does_append]
  refine (ha.course (.init h p)).mono fun r steps after hr => ?_
  cases r with
  | ok v => exact hok v steps after hr.1 hr.2
  | error e => exact herror e steps after hr.1

/-! ### Questions about an element -/

section Questions

variable {p : Page} {q : Query} {id : ElementId}

/-- What a question does on a page where the handle stands for an element. -/
theorem deed_of_ok (hq : q.About h) (hid : p.elementFor h = .ok id) :
    q.deed? p = (q.deedOn? (p.element id)).map fun deed => (id, deed) := by
  obtain ⟨change, hq⟩ := hq
  simp only [Query.deed?, hq, hid]

theorem deed_of_error (hq : q.About h) {e : Error} (herror : p.elementFor h = .error e) :
    q.deed? p = none := by
  obtain ⟨change, hq⟩ := hq
  simp only [Query.deed?, hq, herror]

theorem deeds_nil : deeds [] = [] := rfl

theorem deeds_cons (m : PageMoment) (moments : List PageMoment) :
    deeds (m :: moments) = (m.query.deed? m.world).toList ++ deeds moments :=
  deeds_append [m] moments

theorem Query.Gentle.deeds (hq : q.Gentle) (p : Page) : Simulation.deeds [⟨p, q⟩] = [] := by
  rw [deeds_cons, hq.deed?]
  rfl

theorem about_evaluate (script : String) (args : List (Argument Handle)) :
    (Query.evaluate h script args).About h := ⟨_, rfl⟩

/-- The answer to a question about an element. -/
theorem answer_onHandle (hid : p.elementFor h = .ok id)
    (act : Element → Except Error α × Element) : (p.onHandle h act).1 = (act (p.element id)).1 := by
  unfold Page.onHandle
  rw [hid]
  rfl

/-- The handle stands for an element when a question about it succeeds. -/
theorem ok_of_onHandle {act : Element → Except Error α × Element} {v : α}
    (hok : (p.onHandle h act).1 = .ok v) :
    ∃ id, p.elementFor h = .ok id ∧ (act (p.element id)).1 = .ok v := by
  cases hfor : p.elementFor h with
  | ok id => exact ⟨id, rfl, (answer_onHandle hfor act).symm.trans hok⟩
  | error e =>
    unfold Page.onHandle at hok
    rw [hfor] at hok
    exact absurd hok nofun

/-- What such a question is, what it brings, and what it leaves. -/
def Asked (p : Page) (q : Query) (read : q.Answer → Except Error α) (r : Except Error α)
    (steps : List PageMoment) (after : Page) : Prop :=
  r = read (p.answer q).1 ∧ steps = [⟨p, q⟩] ∧ after = (p.answer q).2

theorem does_asked {q : Query} {f : q.Answer → Except Error α} (hq : q.About h) :
    Does h (Asked p q f) (ask q >>= fun a => Action.ofExcept (f a)).outcome [] p :=
  does_ask hq ⟨rfl, rfl, rfl⟩

end Questions

/-! ### Checks -/

/-- The element behind the handle, if there is one, is as said. -/
def Page.Behind (p : Page) (h : Handle) (P : Element → Prop) : Prop :=
  ∀ id, p.elementFor h = .ok id → P (p.element id)

theorem Page.Behind.carries {p after : Page} {P : Element → Prop} (hb : p.Behind h P)
    (hc : p.Carries after) (hP : ∀ e e' : Element, e.Carries e' → P e → P e') : after.Behind h P := by
  intro id hid
  rw [hc.handles h] at hid
  exact hP _ _ (hc.elements id) (hb id hid)

/-- What was looked at is as it was seen. -/
theorem behind_of_ok {p : Page} {P : Element → Prop} {act : Element → Except Error α × Element} {v : α}
    (hok : (p.onHandle h act).1 = .ok v) (hP : ∀ e, (act e).1 = .ok v → P e) : p.Behind h P := by
  obtain ⟨id, hid, hact⟩ := ok_of_onHandle hok
  intro id' hid'
  obtain rfl : id = id' := Except.ok.inj (hid.symm.trans hid')
  exact hP _ hact

section Checks

variable (o : Locator.Options) (p : Page)

/-- An element that is to be in the viewport is there, and nothing else was done. -/
theorem does_inViewport :
    Does h (fun r steps after => deeds steps = [] ∧ ∀ v, r = .ok v → o.ensureInViewport = true →
      after.Behind h (·.inViewport = true)) (Readiness.inViewport (realm patience) o h).outcome [] p := by
  have habout : (Query.isInViewport h).About h := ⟨_, rfl⟩
  have hgentle : (Query.isInViewport h).Gentle := fun _ => rfl
  unfold Readiness.inViewport
  by_cases ho : o.ensureInViewport = true
  · rw [if_pos ho]
    refine does_step (does_asked habout) ?_ ?_
    · rintro inside steps after ⟨hr, rfl, rfl⟩ hcourse
      cases inside with
      | true =>
        refine ⟨hgentle.deeds p, fun _ _ _ => ?_⟩
        have hseen : p.Behind h (·.inViewport = true) :=
          behind_of_ok hr.symm fun e he => Except.ok.inj he
        exact hseen.carries hcourse.now fun _ _ hc hin => hc.inViewport hin
      | false =>
        have hscroll : (Query.scrollIntoView h).Gentle := fun _ => rfl
        refine does_ask ⟨_, rfl⟩ ⟨?_, fun _ _ _ => ?_⟩
        · rw [List.nil_append, deeds_append, hgentle.deeds, hscroll.deeds]
          rfl
        · intro id hid
          rw [(carries_answer ⟨_, rfl⟩ _).handles h] at hid
          rw [answer_touch rfl, element_reach, if_pos hid]
          rfl
    · rintro e steps after ⟨-, rfl, -⟩
      exact ⟨hgentle.deeds p, nofun⟩
  · rw [if_neg ho]
    exact ⟨rfl, fun _ _ hin => absurd hin ho⟩

/-- The moment when the element was found to keep its place. -/
def FoundStable (h : Handle) (m : PageMoment) : Prop :=
  m.query = .evaluate h ElementScript.isStable [] ∧ m.world.Behind h (·.unstable = 0)

/-- An element that is to keep its place was found to do so. -/
theorem does_stable :
    Does h (fun r steps _ => deeds steps = [] ∧ ∀ v, r = .ok v → o.waitForStable = true →
      ∃ m ∈ steps, FoundStable h m) (Readiness.stable (realm patience) o h).outcome [] p := by
  have hgentle : (Query.evaluate h ElementScript.isStable []).Gentle :=
    gentle_evaluate [] (by simp) h
  unfold Readiness.stable
  by_cases ho : o.waitForStable = true
  · rw [if_pos ho]
    refine does_step (does_asked (about_evaluate _ [])) ?_ ?_
    · rintro still steps after ⟨hr, rfl, rfl⟩ -
      split
      · refine ⟨hgentle.deeds p, fun _ _ _ => ⟨_, List.mem_singleton_self _, rfl, ?_⟩⟩
        exact behind_of_ok hr.symm fun e he => evaluate_isStable e [] he
      · exact ⟨hgentle.deeds p, nofun⟩
    · rintro e steps after ⟨-, rfl, -⟩
      exact ⟨hgentle.deeds p, nofun⟩
  · rw [if_neg ho]
    exact ⟨rfl, fun _ _ hstable => absurd hstable ho⟩

/-- An element that is to be enabled is not disabled. -/
theorem does_enabled :
    Does h (fun r steps after => deeds steps = [] ∧ ∀ v, r = .ok v → o.waitForEnabled = true →
      after.Behind h (·.disabled = false)) (Readiness.enabled (realm patience) o h).outcome [] p := by
  have hgentle : (Query.evaluate h ElementScript.isDisabled []).Gentle :=
    gentle_evaluate [] (by simp) h
  unfold Readiness.enabled
  by_cases ho : o.waitForEnabled = true
  · rw [if_pos ho]
    refine does_step (does_asked (about_evaluate _ [])) ?_ ?_
    · rintro disabled steps after ⟨hr, rfl, rfl⟩ hcourse
      split
      · exact ⟨hgentle.deeds p, nofun⟩
      · rename_i hother
        refine ⟨hgentle.deeds p, fun _ _ _ => ?_⟩
        have hseen : p.Behind h (·.disabled = false) := by
          refine behind_of_ok hr.symm fun e he => ?_
          obtain rfl := Except.ok.inj ((congrArg Prod.fst (evaluate_isDisabled e [])).symm.trans he)
          cases hd : e.disabled with
          | false => rfl
          | true => exact absurd (congrArg Json.bool hd) hother
        exact hseen.carries hcourse.now fun _ _ hc hd => hc.disabled.trans hd
    · rintro e steps after ⟨-, rfl, -⟩
      exact ⟨hgentle.deeds p, nofun⟩
  · rw [if_neg ho]
    exact ⟨rfl, fun _ _ henabled => absurd henabled ho⟩

end Checks

/-! ### Deeds -/

/-- A place to scroll to, as the page is told: what is no finite number is left out. -/
def placeOf (place : Option Float) : Option Float := place.filter Float.isFinite

/-- What the operation does to an element in such a state; none when the element cannot take it. -/
def effect? (op : Operation) (e : Element) : Option (List Deed) :=
  match op with
  | .find => some []
  | .click options => if e.visible then some [.click options] else none
  | .hover => some [.hover]
  | .scroll top left => some [.scroll (placeOf top) (placeOf left)]
  | .fill value =>
    match e.kind with
    | .select => some [.select [value]]
    | .typeableInput | .contenteditable =>
      let plan := TypingPlan.between e.value value
      some ((if plan.clear then [.clear] else []) ++ [.type plan.text])
    | .otherInput => some [.assign value]
    | .unknown => none

/-- The first of the moments found the page like this. -/
def BeginAt (p : Page) (steps : List PageMoment) : Prop := steps.head?.map (·.world) = some p

/-- How the operation ends that is done from a page on: with its effect, or without any. -/
def Acts (op : Operation) (h : Handle) (p : Page) (r : Except Error α) (steps : List PageMoment) :
    Prop :=
  match r with
  | .ok _ => BeginAt p steps ∧ ∃ id ds, p.elementFor h = .ok id ∧
      effect? op (p.element id) = some ds ∧ deeds steps = ds.map (Prod.mk id)
  | .error _ => deeds steps = []

section Deeds

variable {op : Operation} {p now : Page} {before : List PageMoment}

/-- The question with which an operation ends, after others that did nothing: it does the operation's
one deed, or fails. -/
theorem does_last {q : Query} {f : q.Answer → Except Error α} (hq : q.About h)
    {act : Element → Except Error α × Element}
    (hr : f (now.answer q).1 = (now.onHandle h act).1)
    (hfirst : BeginAt p (before ++ [⟨now, q⟩])) (hquiet : deeds before = [])
    (hsame : now.elementFor h = p.elementFor h)
    (hok : ∀ id v, p.elementFor h = .ok id → (act (now.element id)).1 = .ok v →
      ∃ deed, q.deedOn? (now.element id) = some deed ∧ effect? op (p.element id) = some [deed])
    (herror : ∀ e err, (act e).1 = .error err → q.deedOn? e = none) :
    Does h (fun r steps _ => Acts op h p r steps)
      (ask q >>= fun a => Action.ofExcept (f a)).outcome before now := by
  refine does_ask hq ?_
  have hdeeds : deeds (before ++ [⟨now, q⟩]) = (q.deed? now).toList := by
    rw [deeds_append, hquiet, deeds_cons, deeds_nil, List.append_nil]
    rfl
  rw [hr]
  cases hid : now.elementFor h with
  | error e =>
    have hfails : (now.onHandle h act).1 = .error e := by
      rw [Page.onHandle, hid]
    rw [hfails]
    show deeds _ = []
    rw [hdeeds, deed_of_error hq hid]
    rfl
  | ok id =>
    rw [answer_onHandle hid act]
    cases hact : (act (now.element id)).1 with
    | error e =>
      show deeds _ = []
      rw [hdeeds, deed_of_ok hq hid, herror _ e hact]
      rfl
    | ok v =>
      obtain ⟨deed, hdeed, heffect⟩ := hok id v (hsame.symm.trans hid) hact
      refine ⟨hfirst, id, [deed], hsame.symm.trans hid, heffect, ?_⟩
      rw [hdeeds, deed_of_ok hq hid, hdeed]
      rfl

/-- What an operation ends with does not matter. -/
theorem does_done {a : side.Action α}
    (ha : Does h (fun r steps _ => Acts op h p r steps) a.outcome before now) :
    Does h (fun r steps _ => Acts op h p r steps) (a >>= fun _ => pure ()).outcome before now := by
  refine does_andThen (ha.mono fun r steps after hr => ?_)
  cases r with
  | ok v => exact hr
  | error e => exact hr

theorem BeginAt.append (hfirst : BeginAt p before) (steps : List PageMoment) :
    BeginAt p (before ++ steps) := by
  cases before with
  | nil => exact absurd hfirst nofun
  | cons m rest => exact hfirst

/-- Text is typed at the end, after what belongs before it. -/
theorem does_typeText {id : ElementId} {ds : List Deed} {text : String} (hid : p.elementFor h = .ok id)
    (hnow : now.elementFor h = .ok id) (hfirst : BeginAt p before)
    (heffect : effect? op (p.element id) = some (ds ++ [.type text]))
    (hbefore : deeds before = ds.map (Prod.mk id)) :
    Does h (fun r steps _ => Acts op h p r steps) ((realm patience).typeText h text).outcome before now := by
  have habout : (Query.typeText h text).About h := ⟨_, rfl⟩
  refine does_ask (q := .typeText h text) (f := fun r => r) habout ?_
  have hr : (now.onHandle h fun e => (.ok (), e.typeText text)).1 = Except.ok () :=
    answer_onHandle hnow _
  have hdeed : deeds [⟨now, .typeText h text⟩] = [(id, .type text)] := by
    rw [deeds_cons, deed_of_ok habout hnow]
    rfl
  show Acts op h p (now.onHandle h fun e => (.ok (), e.typeText text)).1 _
  rw [hr]
  refine ⟨hfirst.append _, id, _, hid, heffect, ?_⟩
  rw [deeds_append, hdeed, hbefore, List.map_append]
  rfl

/-- A plan is carried out: the field is cleared, where that is needed, and then the text is typed. -/
theorem does_plan {id : ElementId} (plan : TypingPlan) (hid : p.elementFor h = .ok id)
    (hnow : now.elementFor h = .ok id) (hfirst : BeginAt p before) (hquiet : deeds before = [])
    (heffect : effect? op (p.element id) =
      some ((if plan.clear then [.clear] else []) ++ [.type plan.text])) :
    Does h (fun r steps _ => Acts op h p r steps)
      (if plan.clear then do
          let _ ← (realm patience).evaluate h ElementScript.clear []
          (realm patience).typeText h plan.text
        else (realm patience).typeText h plan.text).outcome before now := by
  by_cases hclear : plan.clear = true
  · rw [if_pos hclear] at heffect ⊢
    have habout : (Query.evaluate h ElementScript.clear []).About h := about_evaluate _ []
    have hdeed : deeds [⟨now, .evaluate h ElementScript.clear []⟩] = [(id, .clear)] := by
      rw [deeds_cons, deed_of_ok habout hnow]
      rfl
    refine does_step (does_asked habout) ?_ ?_
    · rintro v steps after ⟨-, rfl, -⟩ hcourse
      refine does_typeText hid ((hcourse.now.handles h).trans hnow) (hfirst.append _) heffect ?_
      rw [deeds_append, hquiet]
      exact hdeed
    · rintro e steps after ⟨hr, -, -⟩
      have hok : (now.answer (.evaluate h ElementScript.clear [])).1 = Except.ok Json.null :=
        (answer_onHandle hnow _).trans (evaluate_clear _ [])
      exact absurd (hr.trans hok) nofun
  · rw [if_neg hclear] at heffect ⊢
    exact does_typeText hid hnow hfirst heffect hquiet

end Deeds

section Phases

variable (p : Page)

theorem does_click (options : ClickOptions) :
    Does h (fun r steps _ => Acts (.click options) h p r steps)
      ((realm patience).click h options).outcome [] p := by
  refine does_last (q := .click h options) (f := id) ⟨_, rfl⟩ rfl rfl rfl rfl ?_ ?_
  · intro id v hid hv
    refine ⟨.click options, ?_⟩
    cases hvisible : (p.element id).visible with
    | true =>
      constructor
      · exact if_pos hvisible
      · exact if_pos hvisible
    | false =>
      rw [Element.click, if_neg (Bool.not_eq_true _ ▸ hvisible)] at hv
      cases hv
  · intro e err he
    unfold Element.click at he
    by_cases hvisible : e.visible = true
    · rw [if_pos hvisible] at he
      cases he
    · exact if_neg hvisible

theorem does_hover :
    Does h (fun r steps _ => Acts .hover h p r steps)
      ((realm patience).hover h).outcome [] p := by
  refine does_last (q := .hover h) (f := id) ⟨_, rfl⟩ rfl rfl rfl rfl ?_ ?_
  · exact fun id v hid hv => ⟨.hover, rfl, rfl⟩
  · exact fun e err he => absurd he nofun

theorem float_place (place : Option Float) :
    (Json.orNull (place.map Json.float)).float? = placeOf place := by
  cases place with
  | none => rfl
  | some x =>
    show (Json.float x).float? = if x.isFinite then some x else none
    unfold Json.float
    split <;> rfl

theorem does_scroll (top left : Option Float) :
    Does h (fun r steps _ => Acts (.scroll top left) h p r steps)
      ((realm patience).scroll h top left).outcome [] p := by
  unfold Realm.scroll
  refine does_done (does_last (about_evaluate _ _) rfl rfl rfl rfl ?_ ?_)
  · intro id v hid hv
    refine ⟨_, scriptDeed_scroll _, ?_⟩
    rw [effect?, ← float_place top, ← float_place left]
    rfl
  · intro e err he
    exact absurd ((evaluate_scroll e _).symm.trans he) nofun

theorem does_fill (value : String) :
    Does h (fun r steps _ => Acts (.fill value) h p r steps)
      ((realm patience).fill h value).outcome [] p := by
  unfold Realm.fill
  refine does_step (does_asked (about_evaluate _ [])) ?_ ?_
  · rintro v steps now ⟨hr, rfl, hnow⟩ hcourse
    obtain ⟨id, hid, he⟩ := ok_of_onHandle hr.symm
    have hlook : ((p.element id).evaluate ElementScript.fillKind ([] : List (Argument Handle))) =
      (.ok (.string (p.element id).kind.name), p.element id) := evaluate_fillKind _ _
    obtain rfl : v = .string (p.element id).kind.name :=
      Except.ok.inj (he.symm.trans (congrArg Prod.fst hlook))
    rw [ofJson_name]
    have hquiet := (gentle_evaluate [] (show ElementScript.fillKind ∈ _ by simp) h).deeds p
    have hkinds : ∀ id', p.elementFor h = .ok id' → id' = id := fun id' hid' =>
      Except.ok.inj (hid'.symm.trans hid)
    cases hkind : (p.element id).kind with
    | select =>
      dsimp only
      refine does_done (does_last (q := .select h [value]) (f := fun r => r) ⟨_, rfl⟩ rfl rfl hquiet
        (hcourse.now.handles h) ?_ ?_)
      · intro id' v hid' hv
        obtain rfl := hkinds id' hid'
        have hselect : (now.element id').kind = .select := (hcourse.now.elements id').kind.trans hkind
        refine ⟨.select [value], if_pos hselect, ?_⟩
        rw [effect?, hkind]
      · intro e err he
        unfold Element.select at he
        by_cases hselect : e.kind = .select
        · rw [if_pos hselect] at he
          exact absurd he nofun
        · exact if_neg hselect
    | otherInput =>
      have hfocus : (Query.focus h).Gentle := fun _ => rfl
      refine does_step (does_asked (q := .focus h) (f := fun r => r) ⟨_, rfl⟩) ?_ ?_
      · rintro v steps after ⟨-, rfl, rfl⟩ hcourse'
        refine does_done (does_last (about_evaluate _ _) rfl rfl ?_ ?_ ?_ ?_)
        · exact quiet_append hquiet (hfocus.deeds now)
        · exact (hcourse'.now.handles h).trans (hcourse.now.handles h)
        · intro id' v hid' hv
          obtain rfl := hkinds id' hid'
          refine ⟨_, scriptDeed_assign _, ?_⟩
          rw [effect?, hkind]
          rfl
        · intro e err he
          exact absurd ((evaluate_assign e _).symm.trans he) nofun
      · rintro e steps after ⟨-, rfl, -⟩
        exact quiet_append hquiet (hfocus.deeds now)
    | typeableInput | contenteditable =>
      refine does_step (does_asked (about_evaluate _ [])) ?_ ?_
      · rintro v steps after ⟨hr', rfl, -⟩ hcourse'
        have hheld : v = .string (p.element id).value := by
          obtain ⟨id', hid', he'⟩ := ok_of_onHandle hr'.symm
          rw [hcourse.now.handles h] at hid'
          obtain rfl := hkinds id' hid'
          have hsame : now.element id' = p.element id' := by
            rw [hnow, answer_touch rfl, element_reach, if_pos hid]
            exact congrArg Prod.snd hlook
          rw [← hsame]
          exact Except.ok.inj (he'.symm.trans (congrArg Prod.fst (evaluate_text _ [])))
        rw [hheld]
        refine does_plan _ hid ?_ rfl ?_ ?_
        · exact (hcourse'.now.handles h).trans ((hcourse.now.handles h).trans hid)
        · exact quiet_append hquiet ((gentle_evaluate [] (by simp) h).deeds now)
        · rw [effect?, hkind]
          rfl
      · rintro e steps after ⟨-, rfl, -⟩
        exact quiet_append hquiet ((gentle_evaluate [] (by simp) h).deeds now)
    | unknown => exact hquiet
  · rintro e steps after ⟨-, rfl, -⟩
    exact (gentle_evaluate [] (by simp) h).deeds p

/-- What an attempt does after its last check. -/
def carryOut (patience : Nat) (h : Handle) (op : Operation) : side.Action Unit := do
  let () ← Action.perform .announce
  match op with
  | .find => pure ()
  | .click options => (realm patience).click h options
  | .hover => (realm patience).hover h
  | .scroll top left => (realm patience).scroll h top left
  | .fill value => (realm patience).fill h value

variable (patience) in
/-- Once it has the handle, an attempt checks the element and then carries out what it is for. -/
theorem act_eq (o : Locator.Options) (h : Handle) (op : Operation) :
    Locator.act (realm patience) o h op = (do
      Readiness.inViewport (realm patience) o h
      Readiness.stable (realm patience) o h
      if op.needsEnabled then Readiness.enabled (realm patience) o h
      carryOut patience h op) := rfl

theorem does_carryOut (op : Operation) (hop : op ≠ .find) :
    Does h (fun r steps _ => Acts op h p r steps) (carryOut patience h op).outcome [] p := by
  refine does_announce ?_
  cases op with
  | find => exact absurd rfl hop
  | click options => exact does_click p options
  | hover => exact does_hover p
  | scroll top left => exact does_scroll p top left
  | fill value => exact does_fill p value

end Phases

/-! ### An attempt -/

/-- The element is as the operation needs it, by the options; that it keeps its place was found
by one of the checks. -/
structure Fit (o : Locator.Options) (op : Operation) (h : Handle) (checks : List PageMoment)
    (e : Element) : Prop where
  inViewport : o.ensureInViewport = true → e.inViewport = true
  stable : o.waitForStable = true → ∃ m ∈ checks, FoundStable h m
  enabled : o.waitForEnabled = true → op.needsEnabled = true → e.disabled = false
  visible : ∀ options, op = .click options → e.visible = true

theorem Fit.carries {o : Locator.Options} {op : Operation} {checks : List PageMoment}
    {e after : Element} (h' : Fit o op h checks e) (hc : e.Carries after) : Fit o op h checks after where
  inViewport ho := hc.inViewport (h'.inViewport ho)
  stable := h'.stable
  enabled ho hn := hc.disabled.trans (h'.enabled ho hn)
  visible options hop := hc.visible.trans (h'.visible options hop)

/-- What an attempt that succeeds has asked once it had the handle: the checks, which did nothing,
and then the questions that have the operation's effect on the element behind the handle.  From the
first of these to the last the element is fit. -/
structure Performed (o : Locator.Options) (op : Operation) (h : Handle)
    (checks acting : List PageMoment) (p : Page) (id : ElementId) (ds : List Deed) : Prop where
  about : ∀ m ∈ checks ++ acting, m.query.About h
  quiet : deeds checks = []
  begin_ : BeginAt p acting
  element : ∀ m ∈ acting, m.world.elementFor h = .ok id
  fit : ∀ m ∈ acting, Fit o op h checks (m.world.element id)
  effect : effect? op (p.element id) = some ds
  done : deeds acting = ds.map (Prod.mk id)

theorem visible_of_effect {options : ClickOptions} {e : Element} {ds : List Deed}
    (heffect : effect? (.click options) e = some ds) : e.visible = true := by
  by_contra hvisible
  rw [effect?, if_neg hvisible] at heffect
  exact absurd heffect nofun

/-- How an attempt with a handle ends: it has done what the operation is for, after its checks, or
nothing. -/
def Concludes (o : Locator.Options) (op : Operation) (h : Handle) (r : Except Error α)
    (steps : List PageMoment) : Prop :=
  match r with
  | .ok _ => ∃ checks acting p id ds, steps = checks ++ acting ∧ Performed o op h checks acting p id ds
  | .error _ => deeds steps = []

section Attempt

variable {o : Locator.Options} {op : Operation} {p : Page}

/-- When the checks have found the element as it has to be, the rest of the attempt concludes. -/
theorem does_checked (hop : op ≠ .find) {checks : List PageMoment} (hquiet : deeds checks = [])
    (habout : ∀ m ∈ checks, m.query.About h)
    (hin : o.ensureInViewport = true → p.Behind h (·.inViewport = true))
    (hstable : o.waitForStable = true → ∃ m ∈ checks, FoundStable h m)
    (henabled : o.waitForEnabled = true → op.needsEnabled = true → p.Behind h (·.disabled = false)) :
    Does h (fun r steps _ => Concludes o op h r steps) (carryOut patience h op).outcome checks p := by
  rw [← List.append_nil checks, does_append]
  refine ((does_carryOut p op hop).course (.init h p)).mono ?_
  rintro r acting after ⟨hacts, hcourse⟩
  cases r with
  | error e => exact quiet_append hquiet hacts
  | ok v =>
    obtain ⟨hbegin, id, ds, hid, heffect, hdone⟩ := hacts
    have hfit : Fit o op h checks (p.element id) := by
      refine ⟨fun ho => hin ho id hid, hstable, fun ho hn => henabled ho hn id hid, ?_⟩
      rintro options rfl
      exact visible_of_effect heffect
    refine ⟨checks, acting, p, id, ds, rfl, ?_, hquiet, hbegin, ?_, ?_, heffect, hdone⟩
    · exact fun m hm => (List.mem_append.mp hm).elim (habout m) (hcourse.about m)
    · exact fun m hm => ((hcourse.then_ m hm).handles h).trans hid
    · exact fun m hm => hfit.carries ((hcourse.then_ m hm).elements id)

variable (o p) in
/-- An attempt with a handle concludes. -/
theorem does_act (hop : op ≠ .find) :
    Does h (fun r steps _ => Concludes o op h r steps)
      (Locator.act (realm patience) o h op).outcome [] p := by
  rw [act_eq]
  refine does_step (does_inViewport o p) ?_ fun e steps after hr => hr.1
  rintro ⟨⟩ viewed p₁ ⟨hquiet₁, hin⟩ hcourse₁
  rw [List.nil_append]
  refine does_step (does_stable o p₁) ?_ fun e steps after hr => quiet_append hquiet₁ hr.1
  rintro ⟨⟩ watched p₂ ⟨hquiet₂, hstable⟩ hcourse₂
  have hquiet : deeds (viewed ++ watched) = [] := quiet_append hquiet₁ hquiet₂
  have habout : ∀ m ∈ viewed ++ watched, m.query.About h := fun m hm =>
    (List.mem_append.mp hm).elim (hcourse₁.about m) (hcourse₂.about m)
  have hinside : o.ensureInViewport = true → p₂.Behind h (·.inViewport = true) := fun ho =>
    (hin () rfl ho).carries hcourse₂.now fun _ _ hc hv => hc.inViewport hv
  have hfound : o.waitForStable = true → ∃ m ∈ viewed ++ watched, FoundStable h m := fun ho => by
    obtain ⟨m, hm, hm'⟩ := hstable () rfl ho
    exact ⟨m, List.mem_append_right _ hm, hm'⟩
  dsimp only
  by_cases hn : op.needsEnabled = true
  · rw [if_pos hn]
    refine does_step (does_enabled o p₂) ?_ fun e steps after hr => quiet_append hquiet hr.1
    rintro ⟨⟩ asked p₃ ⟨hquiet₃, henabled⟩ hcourse₃
    refine does_checked hop (quiet_append hquiet hquiet₃) ?_ ?_ ?_ ?_
    · exact fun m hm => (List.mem_append.mp hm).elim (habout m) (hcourse₃.about m)
    · exact fun ho => (hinside ho).carries hcourse₃.now fun _ _ hc hv => hc.inViewport hv
    · intro ho
      obtain ⟨m, hm, hm'⟩ := hfound ho
      exact ⟨m, List.mem_append_left _ hm, hm'⟩
    · exact fun ho _ => henabled () rfl ho
  · rw [if_neg hn]
    exact does_checked hop hquiet habout hinside hfound fun _ hneeds => absurd hneeds hn

end Attempt

end Wayfind.Simulation
