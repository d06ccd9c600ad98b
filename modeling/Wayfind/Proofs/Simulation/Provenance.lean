/-
What a locator finds, it may find.

Whoever finds a handle vouches for it: by what was asked since the attempt began, the locator
admits what the handle refers to (`finds_resolve`).  A race relies on its branches, which look
in the background and post what they have found: `provenance` is the testimony of that.  All
that lies in inboxes was vouched for (`bears_provenance`).

A handle may be released by others while somebody holds it, and then a filter is not asked
any more.  That nobody does so is not known here, so a released handle is vouched for anyway.
-/
import Wayfind.Proofs.Activity.Testimony
import Wayfind.Proofs.Simulation.Admission
import Wayfind.Proofs.Simulation.Origin

namespace Wayfind.Simulation

open Activity (Token Inbox Request Duty Timeline Testimony Honest Bears Borne Asks honest_bind honest_of_asks
  honest_plain honest_plainly honest_perform honest_request honest_ofExcept)
open PageSide (Action releaseDuty)

variable {maps : String → Mapper → Prop} {patience : Nat} {α β : Type}

/-- A handle is posted by who vouches for it, a branch is forked for its race, and no function of elements
comes in but one there may be. -/
def Claim (now : History maps) : Request side.signature → Prop
  | .query q => Query.Within maps q
  | .post k m => now.Vouched k m
  | .fork (.branch l _ k) => ∃ race, now.races[k]? = some race ∧ l ∈ race.1 ∧ Suits maps now.page l ∧
      race.2 ≤ now.record.length
  | .fork (.chore (c : Timed)) => (Query.change c.change).Within maps
  | _ => True

/-- A question is recorded, a new inbox is for the race that is begun, and what is read was vouched for. -/
def Tells (race : List (Locator Unit) × Nat) (past : History maps) :
    (r : Request side.signature) → r.Answer → History maps → Prop
  | .query q, a, now => ∃ hq : Query.Within maps q, a = (past.page.answer q).1 ∧ now = past.asked q hq
  | .newInbox, k, now => k = past.races.length ∧ now = past.raced race
  | .take k, m, now => past.Vouched k m ∧ now = past
  | _, _, now => now = past

theorem le_of_tells {race : List (Locator Unit) × Nat} {past now : History maps} {r : Request side.signature}
    {a : r.Answer} (h : Tells race past r a now) : past ≤ now := by
  cases r with
  | query q =>
    obtain ⟨hq, -, rfl⟩ := h
    exact past.le_asked hq
  | newInbox =>
    obtain ⟨-, rfl⟩ := h
    exact past.le_raced race
  | take k =>
    obtain ⟨-, rfl⟩ := h
    exact le_rfl
  | _ =>
    obtain rfl := h
    exact le_rfl

/-- The testimony of what is found, where there are only such functions of elements. -/
def provenance (maps : String → Mapper → Prop) : Testimony side.signature where
  Past := History maps
  Choice := List (Locator Unit) × Nat
  nonempty := ⟨([], 0)⟩
  Holds := Claim
  Adds := Tells
  grows := le_of_tells

/-- The activity claims only what is so, whatever it ends with. -/
abbrev Truthful (past : History maps) (p : side.Task α) : Prop :=
  Honest (provenance maps) (fun _ _ => True) past p

/-- The action claims only what is so, and what it ends with is as it should be, unless it fails. -/
abbrev Finds (P : History maps → α → Prop) (past : History maps) (a : side.Action α) : Prop :=
  Honest (provenance maps) (fun now r => ∀ v, r = .ok v → P now v) past a.outcome

section Rules

variable {past : History maps} {P : History maps → β → Prop} {R : History maps → α → Prop}

theorem Query.within_of_looks {q : Query} (h : q.looks = true) : q.Within maps := by
  cases q with
  | change c => exact absurd h nofun
  | _ => trivial

theorem Modest.plain {r : Request side.signature} (h : Modest r) : (provenance maps).Plain r := by
  cases r with
  | query q => exact fun _ => Query.within_of_looks h
  | post | fork => exact absurd h id
  | _ => exact fun _ => trivial

theorem truthful_of_modest {p : side.Task α} (hp : Asks Modest p) : Truthful past p :=
  honest_of_asks (hp.mono fun _ h => h.plain) fun _ _ _ => trivial

theorem truthful_after {p : side.Task α} {f : α → side.Task β} (hp : Asks Modest p)
    (hf : ∀ now ≥ past, ∀ a, Truthful now (f a)) : Truthful past (Activity.bind p f) :=
  honest_bind ((truthful_of_modest hp).mono fun now hle a _ => hf now hle a)

theorem finds_pure {v : β} (h : ∀ now ≥ past, P now v) : Finds P past (pure v) := by
  rintro now hle v' ⟨⟩
  exact h now hle

theorem finds_throw (e : Error) : Finds P past (throw e : side.Action β) := by
  rintro now - v ⟨⟩

theorem Finds.andThen {a : side.Action α} {f : α → side.Action β} (ha : Finds R past a)
    (hf : ∀ now ≥ past, ∀ v, R now v → Finds P now (f v)) : Finds P past (a >>= f) := by
  refine Honest.andThen ha (fun now hle v hv => hf now hle v (hv v rfl)) ?_
  rintro now e v ⟨⟩

/-- After a modest action no less has happened. -/
theorem Asking.finds {a : side.Action α} {f : α → side.Action β} (ha : Asking Modest a)
    (hf : ∀ now ≥ past, ∀ v, Finds P now (f v)) : Finds P past (a >>= f) :=
  Finds.andThen (R := fun _ _ => True) ((truthful_of_modest ha).mono fun _ _ _ _ _ _ => trivial)
    fun now hle v _ => hf now hle v

/-- A question is answered by the page as it is. -/
theorem finds_ask {q : Query} (hq : q.Within maps) {f : q.Answer → side.Action β}
    (hf : ∀ now ≥ past, Finds P (now.asked q hq) (f (now.page.answer q).1)) : Finds P past (ask q >>= f) := by
  refine honest_request (B := side) (r := .query q) ([], 0) (fun _ _ => hq) ?_
  rintro now hle a later ⟨_, rfl, rfl⟩
  exact hf now hle

theorem finds_last {q : Query} (hq : q.Within maps) {P : History maps → q.Answer → Prop}
    (h : ∀ now ≥ past, ∀ a, P now a) : Finds P past (ask q) := by
  rw [← bind_pure (ask q)]
  exact finds_ask hq fun now hle => finds_pure fun later hlater =>
    h later ((hle.trans (now.le_asked hq)).trans hlater) _

/-- Who waits forever need not end as anybody should. -/
theorem honest_never {Q : History maps → α → Prop} : Honest (provenance maps) Q past Activity.never :=
  ⟨nofun, ⟨([], 0), fun _ _ => ⟨trivial, fun e => Empty.elim e⟩⟩, fun _ h => absurd h List.not_mem_nil⟩

theorem finds_ofExcept {r : Except Error β} (h : ∀ v, r = .ok v → ∀ now ≥ past, P now v) :
    Finds P past (Action.ofExcept r) :=
  honest_ofExcept fun now hle v hv => h v hv now hle

theorem Finds.mono {P' : History maps → β → Prop} {a : side.Action β} (ha : Finds P past a)
    (h : ∀ now ≥ past, ∀ v, P now v → P' now v) : Finds P' past a :=
  Honest.mono ha fun now hle _ hr v hv => h now hle v (hr v hv)

/-- An action whose failure is looked at. -/
theorem Finds.attempt {a : side.Action α} {f : Except Error α → side.Action β} (ha : Finds R past a)
    (hf : ∀ now ≥ past, ∀ r, (∀ v, r = .ok v → R now v) → Finds P now (f r)) :
    Finds P past (a.attempt >>= f) :=
  Honest.attempt ha hf

theorem plain_releaseDuty (handle : Handle) :
    ∀ d ∈ ([releaseDuty handle] : List (Duty side.signature)), (provenance maps).Plain d.request := by
  intro d hd
  rw [List.mem_singleton.mp hd]
  exact fun _ => trivial

theorem Finds.protect {a : side.Action β} (ha : Finds P past a) {duties : List (Duty side.signature)}
    (hduties : ∀ d ∈ duties, (provenance maps).Plain d.request) : Finds P past (a.protect duties) :=
  Honest.protect ha hduties

/-- After a release no less has happened. -/
theorem finds_release {f : Unit → side.Action β} (handle held : Handle)
    (hf : ∀ now ≥ past, Finds P now (f ())) :
    Finds P past (((realm patience).releaseIn handle).protect [releaseDuty held] >>= f) := by
  have hrelease : Finds (fun _ _ => True) past ((realm patience).releaseIn handle) :=
    (truthful_of_modest (modest_releaseIn handle)).mono fun _ _ _ _ _ _ => trivial
  exact (hrelease.protect (plain_releaseDuty held)).andThen fun now hle _ _ => hf now hle

theorem finds_guard (i : Interrupt) {a : side.Action β} (ha : Finds P past a) : Finds P past (i.guard a) := by
  have hfail : Finds P past (Interrupt.fail i : side.Action β) :=
    (modest_error i).finds fun now _ e => finds_throw e
  exact Honest.unlessCancelled ha hfail fun _ => trivial

end Rules

/-! ### Looking -/

section Looking

variable {past : History maps} {began : Nat}

theorem History.admits_later {now : History maps} {l : Locator Unit} {target : Target}
    (h : Admits l (past.record.drop began) target) (hle : past ≤ now) :
    Admits l (now.record.drop began) target := by
  obtain ⟨more, hmore⟩ := hle.record.drop began
  rw [← hmore]
  exact h.append more

/-- A handle that is made last refers to what is vouched for. -/
theorem History.vouches_new {l : Locator Unit} {q : Query} (hq : q.Within maps) {handle : Handle}
    (hmade : handle.id < (past.page.answer q).2.created)
    (h : Admits l (past.record.drop began ++ [⟨past.page, q⟩]) handle.target)
    (hbegan : began ≤ past.record.length) : (past.asked q hq).Vouches l began handle := by
  refine ⟨hmade, Or.inr ?_⟩
  show Admits l ((past.record ++ [_]).drop began) handle.target
  rw [List.drop_append_of_le_length hbegan]
  exact h

/-- A look finds an element that is served and is as it is waited for. -/
theorem look_found {p : Page} {o : Locator.Options} {selector : String} {ms : Nat} {h : Handle}
    (hfound : (p.look selector (o.wait ms)).1 = .found h) :
    ∃ id, p.served.lookup selector = some id ∧ o.meets (p.element id).visible = true ∧
      h.target = .element id ∧ h.id < (p.look selector (o.wait ms)).2.created := by
  rcases hserved : p.served.lookup selector with _ | id
  · simp only [Page.look, hserved] at hfound
    split at hfound <;> cases hfound
  · have hmeets := o.seen_wait ms (p.element id).visible
    by_cases hvisible : o.meets (p.element id).visible = true
    · simp only [Page.look, hserved, hmeets, if_pos hvisible] at hfound ⊢
      cases hfound
      exact ⟨id, rfl, hvisible, rfl, by simp [Page.newHandle, Page.created]⟩
    · simp only [Page.look, hserved, hmeets, if_neg hvisible] at hfound
      cases hfound

/-- A node finds an element that its selector is served, visible or hidden as is asked for. -/
theorem finds_lookUntil (o : Locator.Options) (selector : String) (ms : Nat) (deadline : Option Nat)
    (fuel : Nat) (hbegan : began ≤ past.record.length) :
    Finds (fun now found => ∀ h, found = some h → now.Vouches (.node o () selector) began h) past
      (lookUntil selector (o.wait ms) deadline fuel) := by
  induction fuel generalizing past with
  | zero => exact honest_never
  | succ fuel ih =>
    let q : Query := .look selector (o.wait ms)
    have hq : q.Within maps := trivial
    refine finds_ask hq fun now hle => ?_
    have hbegan' : began ≤ now.record.length := hbegan.trans hle.record.length_le
    have hlook : ∀ h, (now.page.look selector (o.wait ms)).1 = .found h →
        (now.asked q hq).Vouches (.node o () selector) began h := by
      intro h hfound
      obtain ⟨id, hserved, hvisible, htarget, hmade⟩ := look_found hfound
      refine History.vouches_new hq hmade ?_ hbegan'
      rw [htarget]
      exact .node (List.mem_append_right _ List.mem_cons_self) hserved hvisible
    have hasked : began ≤ (now.asked q hq).record.length := hbegan'.trans (now.le_asked hq).record.length_le
    rcases hlooked : (now.page.answer q).1 with h | _ | _
    · refine finds_pure ?_
      rintro later hlater _ ⟨⟩
      exact (hlook h hlooked).later hlater
    · exact finds_pure nofun
    · refine Asking.finds (modest_isOver deadline) fun later hmore late => ?_
      cases late with
      | true => exact finds_throw _
      | false =>
        refine Asking.finds (modest_sleep lookInterval) fun last hlast _ => ?_
        exact ih (hasked.trans (hmore.trans hlast).record.length_le)

theorem finds_waitForSelector (patience : Nat) (o : Locator.Options) (selector : String) (ms : Nat)
    (hbegan : began ≤ past.record.length) :
    Finds (fun now found => ∀ h, found = some h → now.Vouches (.node o () selector) began h) past
      ((pages patience).waitForSelector () selector (o.wait ms)) := by
  have hdelay : (Query.delayOf selector).Within maps := trivial
  refine finds_ask hdelay fun now hle => ?_
  have hlook : ∀ later ≥ now, Finds
      (fun now found => ∀ h, found = some h → now.Vouches (.node o () selector) began h) later
      (deadlineOf ms >>= fun deadline => lookUntil selector (o.wait ms) deadline
        (turns patience ms lookInterval)) := fun later hlater =>
    Asking.finds (modest_deadlineOf ms) fun last hlast deadline =>
      finds_lookUntil o selector ms deadline _
        (hbegan.trans (hle.trans (hlater.trans hlast)).record.length_le)
  have hasked : now ≤ now.asked (.delayOf selector) hdelay := now.le_asked hdelay
  rcases (now.page.answer (.delayOf selector)).1 with _ | delay
  · exact hlook _ hasked
  · exact Asking.finds (modest_sleep delay) fun later hlater _ => hlook later (hasked.trans hlater)

/-- A filter that has looked its predicate up goes on until it holds. -/
theorem finds_holdsUntil {o : Locator.Options} {inner : Locator Unit} {predicate : String} {handle : Handle}
    {place : Nat} {id : ElementId} (timeout : Nat) (deadline : Option Nat) (fuel : Nat) {before : List Instant}
    {i : Instant} (hbefore : before ++ [i] <+: past.record.drop began) (hadmits : Admits inner before (.element id))
    (hlookup : i.query = .subject predicate (some handle))
    (hsubject : i.world.subject predicate (some handle) = some (place, id)) :
    Finds (fun now _ => Admits (.filtered o inner predicate) (now.record.drop began) (.element id)) past
      (holdsUntil place id timeout deadline fuel) := by
  induction fuel generalizing past with
  | zero => exact honest_never
  | succ fuel ih =>
    have hholds : (Query.holds place id).Within maps := trivial
    refine finds_ask hholds fun now hle => ?_
    have hnow : before ++ [i] <+: now.record.drop began := hbefore.trans (hle.record.drop began)
    have hasked := now.le_asked hholds
    rcases hheld : (now.page.answer (.holds place id)).1 with _ | _
    · refine Asking.finds (modest_isOver deadline) fun later hmore late => ?_
      cases late with
      | true => exact finds_throw _
      | false =>
        refine Asking.finds (modest_sleep lookInterval) fun last hlast _ => ?_
        exact ih (hnow.trans ((hasked.trans (hmore.trans hlast)).record.drop began))
    · refine finds_last (q := .newHandle (.json (.bool true))) trivial fun last hlast _ => ?_
      refine History.admits_later ?_ hlast
      obtain ⟨between, hbetween⟩ := hnow
      have hbegan : began ≤ now.record.length := by
        by_contra hlate
        rw [List.drop_eq_nil_of_le (Nat.le_of_not_le hlate)] at hbetween
        exact absurd (congrArg List.length hbetween) (by simp)
      show Admits _ ((now.record ++ [_]).drop began) _
      have hfiltered : Admits (.filtered o inner predicate)
          (before ++ i :: (between ++ [⟨now.page, .holds place id⟩])) (.element id) :=
        .filtered hadmits hlookup hsubject rfl hheld
      rw [List.drop_append_of_le_length hbegan, ← hbetween, List.append_assoc, List.append_assoc]
      exact hfiltered

/-- The handle of an element can be asked about until it is released. -/
theorem subject_some {p : Page} {script : String} {h : Handle} {place : Nat} {id : ElementId}
    (hsubject : p.subject script (some h) = some (place, id)) :
    h.target = .element id ∧ p.isReleased h = false := by
  unfold Page.subject at hsubject
  split at hsubject
  · obtain ⟨id', hid, hsame⟩ := Option.map_eq_some_iff.mp hsubject
    obtain rfl : id' = id := congrArg Prod.snd hsame
    unfold Page.elementOf at hid
    simp only [Option.bind_some] at hid
    split at hid
    · rename_i id' htarget
      by_cases hr : p.isReleased h = true
      · rw [if_pos hr] at hid
        cases hid
      · rw [if_neg hr] at hid
        exact ⟨htarget.trans (congrArg Target.element (Option.some.inj hid)), Bool.eq_false_of_not_eq_true hr⟩
    · cases hid
  · cases hsubject

theorem subject_none {p : Page} {script : String} {h : Handle} {id : ElementId}
    (hsubject : p.subject script (some h) = none) (hknown : script ∈ p.predicates.map Prod.fst)
    (htarget : h.target = .element id) : p.isReleased h = true := by
  obtain ⟨place, hplace⟩ := Option.isSome_iff_exists.mp (lastPlace?_isSome.mpr hknown)
  by_cases hr : p.isReleased h = true
  · exact hr
  · simp only [Page.subject, hplace, Option.bind_some, Page.elementOf, htarget, if_neg hr] at hsubject
    cases hsubject

/-- A filter vouches for the handle of which its predicate holds. -/
theorem finds_waitFor (patience : Nat) (o : Locator.Options) {inner : Locator Unit} {predicate : String}
    {handle : Handle} (args : List (Argument Handle)) (hargs : argumentHandle args = some handle)
    (wait : FunctionWait) (hbegan : began ≤ past.record.length)
    (hknown : predicate ∈ past.page.predicates.map Prod.fst)
    (helement : Elemental maps inner) (hv : past.Vouches inner began handle) :
    Finds (fun now _ => now.Vouches (.filtered o inner predicate) began handle) past
      (waitFor patience predicate wait args) := by
  have hlooks : (Query.subject predicate (some handle)).Within maps := trivial
  unfold waitFor
  rw [hargs]
  refine finds_ask hlooks fun now hle => ?_
  have hnow := hv.later hle
  have hasked := now.le_asked hlooks
  rcases hsubject : (now.page.answer (.subject predicate (some handle))).1 with _ | ⟨place, id⟩
  · have hreleased : now.page.isReleased handle = true := by
      rcases hnow.admits with hr | hadmits
      · exact hr
      · obtain ⟨id, htarget⟩ :=
          helement _ (fun i hi => now.within.2 i (List.mem_of_mem_drop hi)) _ hadmits
        exact subject_none hsubject (hle.page.predicates hknown) htarget
    have hvouches : now.Vouches (.filtered o inner predicate) began handle := ⟨hnow.made, Or.inl hreleased⟩
    exact (truthful_of_modest (modest_callHandle predicate)).mono fun later hlater _ _ _ _ =>
      hvouches.later (hasked.trans hlater)
  · obtain ⟨htarget, hlive⟩ := subject_some hsubject
    have hadmits : Admits inner (now.record.drop began) (.element id) := by
      rw [← htarget]
      exact hnow.admits.resolve_left (by rw [hlive]; exact Bool.false_ne_true)
    have hrecord : now.record.drop began ++ [⟨now.page, .subject predicate (some handle)⟩] <+:
        (now.asked (.subject predicate (some handle)) hlooks).record.drop began := by
      rw [← List.drop_append_of_le_length (hbegan.trans hle.record.length_le)]
      exact List.prefix_rfl
    refine Asking.finds (modest_deadlineOf wait.timeout) fun later hlater deadline => ?_
    refine (finds_holdsUntil (o := o) wait.timeout deadline _
      (hrecord.trans (hlater.record.drop began)) hadmits rfl hsubject).mono fun last hlast _ hfiltered => ?_
    refine ⟨(hnow.later ((hasked.trans hlater).trans hlast)).made, Or.inr ?_⟩
    rw [htarget]
    exact hfiltered

/-- A function is called on the element behind a handle. -/
theorem mapHandle_ok {p : Page} {h made : Handle} {script : String}
    (hok : (p.mapHandle h script).1 = .ok made) :
    ∃ id mapper, p.elementFor h = .ok id ∧ p.mappers.lookup script = some mapper ∧
      made.target = mapper id (p.element id) ∧ made.id < (p.mapHandle h script).2.created := by
  unfold Page.mapHandle at hok ⊢
  split at hok
  · cases hok
  · rename_i id hid
    split at hok
    · cases hok
    · rename_i mapper hmapper
      cases hok
      exact ⟨id, mapper, hid, hmapper, rfl, by simp [Page.newHandle, Page.created]⟩

theorem elementFor_ok {p : Page} {h : Handle} {id : ElementId} (hok : p.elementFor h = .ok id) :
    h.target = .element id ∧ p.isReleased h = false := by
  unfold Page.elementFor at hok
  by_cases hr : p.isReleased h = true
  · rw [if_pos hr] at hok
    cases hok
  · rw [if_neg hr] at hok
    split at hok
    · rename_i id' htarget
      cases hok
      exact ⟨htarget, Bool.eq_false_of_not_eq_true hr⟩
    · cases hok

/-- A map vouches for what its function makes. -/
theorem finds_evaluateHandle (patience : Nat) (o : Locator.Options) (script : String) {inner : Locator Unit}
    {handle : Handle} (hbegan : began ≤ past.record.length) (hv : past.Vouches inner began handle) :
    Finds (fun now made => now.Vouches (.mapped o inner script) began made) past
      ((realm patience).evaluateHandle handle script []) := by
  have hmap : (Query.mapHandle handle script).Within maps := trivial
  refine finds_ask hmap fun now hle => finds_ofExcept fun made hmade later hlater => ?_
  obtain ⟨id, mapper, hid, hmapper, htarget, hcreated⟩ := mapHandle_ok hmade
  obtain ⟨hsubject, hlive⟩ := elementFor_ok hid
  have hadmits : Admits inner (now.record.drop began) (.element id) := by
    rw [← hsubject]
    exact (hv.later hle).admits.resolve_left (by rw [hlive]; exact Bool.false_ne_true)
  refine (History.vouches_new hmap hcreated ?_ (hbegan.trans hle.record.length_le)).later hlater
  rw [htarget]
  exact .mapped hadmits rfl hid hmapper

/-! ### Races -/

section Race

variable {o : Locator.Options} {branches : List (Locator Unit)} {inbox : Inbox}

/-- What is read for a race was found by one of its branches. -/
theorem finds_firstHandle (hrace : past.races[inbox]? = some (branches, began)) (count : Nat)
    (last : Option Error) :
    Finds (fun now winner => ∀ h left, winner = .ok (h, left) → now.Vouches (.race o branches) began h) past
      (Race.firstHandle (B := side) inbox count last) := by
  induction count generalizing past last with
  | zero => exact finds_pure nofun
  | succ count ih =>
    refine honest_request (r := .take inbox) ([], 0) (fun _ _ => trivial) ?_
    rintro now hle (m : Except Error Handle) later ⟨hvouched, rfl⟩
    cases m with
    | ok h =>
      refine finds_pure ?_
      rintro last hlast _ _ ⟨⟩
      obtain ⟨race, hfound, l, hl, hv⟩ := hvouched h rfl
      obtain rfl : race = (branches, began) :=
        Option.some.inj (hfound.symm.trans (History.race_of_le hle hrace))
      exact History.Vouches.later ⟨hv.made, hv.admits.imp_right (Admits.race hl)⟩ hlast
    | error e => exact ih (History.race_of_le hle hrace) (some e)

/-- Branches are forked for the race they belong to. -/
theorem finds_forkBranches {P : History maps → β → Prop} (race : Interrupt) {rest : List (Locator Unit)}
    {f : Unit → side.Action β} (hrace : past.races[inbox]? = some (branches, began))
    (hbegan : began ≤ past.record.length) (hrest : ∀ l ∈ rest, l ∈ branches ∧ Suits maps past.page l)
    (hf : ∀ now ≥ past, Finds P now (f ())) :
    Finds P past (Race.forkBranches (B := side) race inbox rest >>= f) := by
  induction rest generalizing past with
  | nil =>
    simp only [Race.forkBranches, pure_bind]
    exact hf past le_rfl
  | cons l rest ih =>
    simp only [Race.forkBranches, Interrupt.child, bind_assoc, pure_bind]
    refine honest_plainly (fun _ => trivial) fun now hle t => ?_
    obtain ⟨hl, hsuits⟩ := hrest l List.mem_cons_self
    refine honest_request ([], 0) (fun later hlater => ?_) ?_
    · have hall := hle.trans hlater
      exact ⟨(branches, began), History.race_of_le hall hrace, hl, hsuits.later hall.page.toKnows,
        hbegan.trans hall.record.length_le⟩
    · rintro later hlater _ last rfl
      have hall := hle.trans hlater
      exact ih (History.race_of_le hall hrace) (hbegan.trans hall.record.length_le)
        (fun l hl => (hrest l (List.mem_cons_of_mem _ hl)).imp_right fun h => h.later hall.page.toKnows)
        fun now hnow => hf now (hall.trans hnow)

/-- A race vouches for the handle of its winner. -/
theorem finds_race (i : Interrupt) (hbegan : began ≤ past.record.length)
    (hsuits : ∀ l ∈ branches, Suits maps past.page l) :
    Finds (fun now h => now.Vouches (.race o branches) began h) past (Race.run (B := side) branches i) := by
  by_cases hne : branches = []
  · subst hne
    exact finds_throw _
  · rw [race_run hne]
    simp only [Interrupt.child, bind_assoc, pure_bind]
    refine honest_plainly (fun _ => trivial) fun now hle t => ?_
    refine honest_request (r := .newInbox) (branches, began) (fun _ _ => trivial) ?_
    rintro mid hmid inbox later ⟨rfl, rfl⟩
    have hall : past ≤ mid.raced (branches, began) := (hle.trans hmid).trans (mid.le_raced _)
    have hrace : (mid.raced (branches, began)).races[mid.races.length]? = some (branches, began) :=
      List.getElem?_concat_length
    refine finds_forkBranches _ hrace (hbegan.trans hall.record.length_le)
      (fun l hl => ⟨hl, (hsuits l hl).later hall.page.toKnows⟩) fun last hlast => ?_
    have hclosing : ∀ d ∈ ([.close mid.races.length, .cancel t] : List (Duty side.signature)),
        (provenance maps).Plain d.request := by
      intro d hd
      rcases List.mem_pair.mp hd with rfl | rfl <;> exact fun _ => trivial
    have hread := finds_firstHandle (o := o) (History.race_of_le hlast hrace) branches.length none
    refine (hread.protect hclosing).andThen fun after _ winner hwinner => ?_
    refine honest_plainly (fun _ => trivial) fun now hnow _ => ?_
    rcases winner with last | ⟨h, left⟩
    · exact finds_throw _
    · refine honest_plainly (fun _ => trivial) fun later hlater _ => finds_pure fun final hfinal => ?_
      exact (hwinner h left rfl).later ((hnow.trans hlater).trans hfinal)

end Race

/-- Whoever finds a handle vouches for it. -/
theorem finds_resolve (i : Interrupt) :
    ∀ (l : Locator side.Page) {past : History maps}, began ≤ past.record.length → Suits maps past.page l →
      Finds (fun now h => now.Vouches l began h) past (l.resolve (browser patience) i)
  | .node o _ selector, past, hbegan, _ => by
    unfold Locator.resolve
    refine Asking.finds (modest_remaining i) fun now hle ms => ?_
    have hfound := finds_waitForSelector patience o selector ms
      (hbegan.trans hle.record.length_le)
    refine (finds_guard i hfound).andThen fun later hlater found hv => ?_
    cases found with
    | some h => exact finds_pure fun last hlast => (hv h rfl).later hlast
    | none => exact finds_throw _
  | .filtered o inner predicate, past, hbegan, hsuits => by
    unfold Locator.resolve
    cases hsuits with
    | filtered _ hinner hknown helement =>
      refine (finds_resolve i inner hbegan hinner).andThen fun now hle handle hv => ?_
      have hheld := finds_waitFor patience o [.handle handle] rfl ⟨o.timeout, .mutation⟩
        (hbegan.trans hle.record.length_le) (hle.page.predicates hknown) helement hv
      refine ((finds_guard i hheld).protect (plain_releaseDuty handle)).attempt fun later _ held hafter => ?_
      cases held with
      | ok result =>
        exact finds_release result handle fun last hlast => finds_pure fun final hfinal =>
          (hafter result rfl).later (hlast.trans hfinal)
      | error e => exact finds_release handle handle fun _ _ => finds_throw e
  | .mapped o inner script, past, hbegan, hsuits => by
    unfold Locator.resolve
    cases hsuits with
    | mapped _ _ hinner =>
      refine (finds_resolve i inner hbegan hinner).andThen fun now hle handle hv => ?_
      have hmade := finds_evaluateHandle patience o script
        (hbegan.trans hle.record.length_le) hv
      refine ((finds_guard i hmade).protect (plain_releaseDuty handle)).attempt fun later _ made hafter => ?_
      exact finds_release handle handle fun last hlast => finds_ofExcept fun h hh final hfinal =>
        (hafter h hh).later (hlast.trans hfinal)
  | .race o branches, past, hbegan, hsuits => by
    unfold Locator.resolve
    cases hsuits with
    | race _ hbranches => exact finds_race i hbegan hbranches

end Looking

/-! ### Background work -/

section Jobs

variable (patience) (past : History maps)

/-- A branch posts what it vouches for. -/
theorem truthful_branch {past : History maps} {l : Locator Unit} {race : List (Locator Unit) × Nat} (i : Interrupt)
    {inbox : Inbox} (hrace : past.races[inbox]? = some race) (hl : l ∈ race.1) (hsuits : Suits maps past.page l)
    (hbegan : race.2 ≤ past.record.length) : Truthful past (l.runBranch (browser patience) i inbox) := by
  have hend : ∀ now : History maps, Truthful now (Activity.perform (.discard i.token) : side.Task Unit) :=
    fun now => honest_of_asks (Activity.asks_perform fun _ => trivial) fun _ _ _ => trivial
  refine honest_bind (Honest.mono (finds_resolve i l hbegan hsuits) fun now hle found hv => ?_)
  refine honest_perform ([], 0) (fun later hlater => ?_) fun later hlater (accepted : Bool) last _ => ?_
  · intro h hok
    exact ⟨race, History.race_of_le (hle.trans hlater) hrace, l, hl, (hv h hok).later hlater⟩
  · cases found with
    | ok handle =>
      cases accepted with
      | true => exact hend _
      | false => exact truthful_after (asks_release patience handle) fun after _ _ => hend after
    | error e => exact hend _

theorem truthful_drain (inbox : Inbox) (count : Nat) :
    Truthful past (Race.drain (realm patience) inbox count) := by
  induction count generalizing past with
  | zero => exact fun _ _ => trivial
  | succ count ih =>
    refine honest_plain (fun _ => trivial) fun now _ (m : Except Error Handle) => ?_
    cases m with
    | ok handle => exact truthful_after (asks_release patience handle) fun after _ _ => ih after
    | error e => exact ih now

theorem truthful_expire (i : Interrupt) (ended : Token) : Truthful past (i.expire ended : side.Task Unit) := by
  unfold Interrupt.expire
  split
  · exact fun _ _ => trivial
  · rename_i deadline hdeadline
    refine truthful_after (asks_awaitDeadline i ended deadline) fun now _ reached => ?_
    cases reached with
    | true =>
      exact honest_plain (fun _ => trivial) fun later _ _ =>
        honest_of_asks (Activity.asks_perform fun _ => trivial) fun _ _ _ => trivial
    | false => exact fun _ _ => trivial

/-- Whoever is forked on a true claim claims only what is so. -/
theorem truthful_start {job : Job Handle Unit Timed} (h : Claim past (.fork job)) :
    Truthful past ((backend patience).start job) := by
  cases job with
  | release handle => exact truthful_of_modest (asks_release patience handle)
  | branch l i inbox =>
    obtain ⟨race, hrace, hl, hsuits, hbegan⟩ := h
    exact truthful_branch patience i hrace hl hsuits hbegan
  | drain inbox count => exact truthful_drain patience past inbox count
  | expire i ended => exact truthful_expire past i ended
  | cancelAt time t =>
    exact honest_plain (fun _ => trivial) fun _ _ _ =>
      honest_of_asks (Activity.asks_perform fun _ => trivial) fun _ _ _ => trivial
  | chore c =>
    have hchange : (provenance maps).Plain (.query (.change c.change)) := fun _ => h
    exact honest_plain (fun _ => trivial) fun _ _ _ =>
      honest_of_asks (Activity.asks_perform hchange) fun _ _ _ => trivial

end Jobs

/-! ### Recorded pages -/

/-- The page is as it came of what it was asked, which is on the record, and all that lies in the inboxes of
races was vouched for. -/
structure Shows (patience : Nat) (past : History maps)
    (tl : Timeline side.signature (recording patience).World) : Prop where
  page : tl.world.1 = past.page
  record : tl.world.2 = past.record
  races : tl.inboxes.size = past.races.length
  messages : ∀ k, ∀ m ∈ tl.messages k, past.Vouched k m

section Shows

variable {past : History maps} {tl after : Timeline side.signature (recording patience).World}

/-- Where nothing is asked and nothing sent, no more is shown. -/
theorem Shows.same (h : Shows patience past tl) (hworld : after.world = tl.world)
    (hraces : after.inboxes.size = tl.inboxes.size)
    (hmessages : ∀ k, ∀ m ∈ after.messages k, past.Vouched k m) : Shows patience past after :=
  ⟨hworld ▸ h.page, hworld ▸ h.record, hraces.trans h.races, hmessages⟩

/-- Only what is vouched for comes to lie in an inbox. -/
theorem Shows.messages_perform (h : Shows patience past tl) {r : Request side.signature} {a : r.Answer}
    (hclaim : Claim past r) (hp : Timeline.perform (recording patience) tl r = some (a, after)) :
    ∀ k, ∀ m ∈ after.messages k, past.Vouched k m := by
  intro k m hm
  have hoffered := Activity.mem_messages_of_perform hp hm
  cases Timeline.performs hp with
  | post k' m' =>
    rw [Activity.messages_post] at hm
    rcases List.mem_append.mp hm with hold | hnew
    · exact h.messages k m hold
    · split at hnew
      · rename_i hsame
        obtain rfl : k' = k := by simpa using (Bool.and_eq_true_iff.mp hsame).1
        rw [List.mem_singleton.mp hnew]
        exact hclaim
      · exact absurd hnew List.not_mem_nil
  | _ => exact h.messages k m (hoffered.resolve_right List.not_mem_nil)

/-- True claims are answered so that the record shows what comes of them. -/
theorem Shows.perform (h : Shows patience past tl) {r : Request side.signature} {a : r.Answer}
    (hclaim : Claim past r) (hp : Timeline.perform (recording patience) tl r = some (a, after))
    (race : List (Locator Unit) × Nat) : ∃ now, Tells race past r a now ∧ Shows patience now after := by
  have hmessages := h.messages_perform hclaim hp
  have hleads := Activity.perform_leads hp
  cases Timeline.performs hp with
  | query q =>
    obtain ⟨-, hworld⟩ := hleads
    refine ⟨past.asked q hclaim, ⟨hclaim, ?_, rfl⟩, ?_, ?_, ?_, fun k m hm =>
      (hmessages k m hm).later (past.le_asked hclaim)⟩
    · rw [← h.page]
      rfl
    · exact (congrArg Prod.fst hworld).trans (congrArg (fun p => (p.answer q).2) h.page)
    · refine (congrArg Prod.snd hworld).trans ?_
      show tl.world.2 ++ [⟨tl.world.1, q⟩] = past.record ++ [⟨past.page, q⟩]
      rw [h.record, h.page]
      rfl
    · exact (congrArg Array.size (Timeline.forkAll_inboxes _ _)).trans h.races
  | newInbox =>
    refine ⟨past.raced race, ⟨h.races, rfl⟩, h.page, h.record, ?_, fun k m hm =>
      (hmessages k m hm).later (past.le_raced race)⟩
    refine (Array.size_push _).trans ?_
    rw [h.races]
    exact (List.length_append : (past.races ++ [race]).length = _).symm
  | @take k m rest hm =>
    have hfirst : m ∈ tl.messages k := hm ▸ List.mem_cons_self
    exact ⟨past, ⟨h.messages k m hfirst, rfl⟩, h.same rfl (Array.size_modify ..) hmessages⟩
  | post k m =>
    refine ⟨past, rfl, h.same hleads ?_ hmessages⟩
    unfold Timeline.post
    split
    · exact Array.size_modify ..
    · rfl
  | close k =>
    refine ⟨past, rfl, h.same hleads ?_ hmessages⟩
    exact (congrArg Array.size (Timeline.forkAll_inboxes _ _)).trans (Array.size_modify ..)
  | cancel t =>
    exact ⟨past, rfl, h.same hleads (congrArg Array.size (Timeline.cancel_sameBut tl t).inboxes) hmessages⟩
  | _ => exact ⟨past, rfl, h.same rfl rfl hmessages⟩

/-- Recorded pages bear the testimony out. -/
theorem bears_provenance : Bears (provenance maps) (Shows patience) where
  answers h hclaim hp race := h.perform hclaim hp race
  jobs := by
    intro past tl r h hclaim job hjob
    cases r with
    | fork job' =>
      rw [List.mem_singleton.mp hjob]
      exact truthful_start patience past hclaim
    | close k =>
      obtain ⟨m, -, hm⟩ := List.mem_flatMap.mp hjob
      cases m with
      | ok handle =>
        rw [List.mem_singleton.mp hm]
        exact truthful_of_modest (asks_release patience handle)
      | error e => exact absurd hm List.not_mem_nil
    | _ => exact absurd hjob List.not_mem_nil
  others h hworld hinboxes := h.same hworld (congrArg Array.size hinboxes) fun k m hm =>
    h.messages k m (Activity.messages_of_inboxes hinboxes k ▸ hm)

end Shows

end Wayfind.Simulation
