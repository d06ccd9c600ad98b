/-
What setters reach in a tree of locators, and what they leave alone.

A tree is looked at part by part: a path leads from a locator to one inside it, and besides its
options a part is what it does.  A setter changes the options of every part in the same way and
nothing else (`part?_set`), so after any settings each option of each part has the last value that
was given it, or the one it had (`reset_setAll`).

A program makes locators out of others and sets options of those it has made, in any order.  What it
makes of a locator is made of a snapshot, so what is set later reaches the locator it is set on and
none that was made of it (`getElem?_made_append`).  A filter and a map start with the options of what
is inside and are only ever set together with it (`coherent_made`); without a race, which starts with
options of its own, a tree has the same options everywhere.
-/
import Wayfind.Locator.Basic

namespace Wayfind.Locator

variable {P : Type}

/-! ### Options, one by one -/

/-- One of the options of a locator. -/
inductive Field where
  | timeout
  | visibility
  | ensureInViewport
  | waitForEnabled
  | waitForStable
deriving DecidableEq, Repr

namespace Field

/-- The type of its values. -/
def Value : Field → Type
  | timeout => Nat
  | visibility => Option Visibility
  | ensureInViewport | waitForEnabled | waitForStable => Bool

/-- Its value among options. -/
def of (o : Options) : (f : Field) → f.Value
  | timeout => o.timeout
  | visibility => o.visibility
  | ensureInViewport => o.ensureInViewport
  | waitForEnabled => o.waitForEnabled
  | waitForStable => o.waitForStable

/-- The value that a setting gives it; none when the setting names another option. -/
def given : Setting → (f : Field) → Option f.Value
  | .timeout ms, timeout => some ms
  | .visibility v, visibility => some v
  | .ensureInViewport value, ensureInViewport => some value
  | .waitForEnabled value, waitForEnabled => some value
  | .waitForStable value, waitForStable => some value
  | _, _ => none

/-- The last value that settings give it; none when no setting names it. -/
def lastGiven (settings : List Setting) (f : Field) : Option f.Value :=
  (settings.filterMap fun s => given s f).getLast?

theorem of_apply (s : Setting) (o : Options) (f : Field) :
    of (s.apply o) f = (given s f).getD (of o f) := by
  cases s <;> cases f <;> rfl

theorem lastGiven_cons (s : Setting) (settings : List Setting) (f : Field) :
    lastGiven (s :: settings) f = (lastGiven settings f).or (given s f) := by
  unfold lastGiven
  cases hgiven : given s f with
  | none => rw [List.filterMap_cons_none (f := fun s => given s f) hgiven, Option.or_none]
  | some value =>
    rw [List.filterMap_cons_some (f := fun s => given s f) hgiven, List.getLast?_cons]
    cases (settings.filterMap fun s => given s f).getLast? <;> rfl

/-- After settings it has the last value that was given it, or the one it had. -/
theorem of_foldl (settings : List Setting) (o : Options) (f : Field) :
    of (settings.foldl (fun o s => s.apply o) o) f = (lastGiven settings f).getD (of o f) := by
  induction settings generalizing o with
  | nil => rfl
  | cons s settings ih =>
    rw [List.foldl_cons, ih, of_apply, lastGiven_cons]
    cases lastGiven settings f <;> rfl

end Field

/-! ### The parts of a tree -/

/-- The locators right inside. -/
def inner : Locator P → List (Locator P)
  | node _ _ _ | function _ _ _ => []
  | filtered _ l _ | mapped _ l _ => [l]
  | race _ branches => branches

/-- The part that a path leads to: each step names one of the locators right inside by its place. -/
def part? : List Nat → Locator P → Option (Locator P)
  | [], l => some l
  | i :: path, l => l.inner[i]?.bind (part? path)

/-- What a locator does, apart from its options and from what is inside. -/
inductive Work (P : Type) where
  | node (page : P) (selector : String)
  | function (page : P) (script : String)
  | filter (predicate : String)
  | map (mapper : String)
  | race

/-- What a locator does. -/
def work : Locator P → Work P
  | node _ page selector => .node page selector
  | function _ page script => .function page script
  | filtered _ _ predicate => .filter predicate
  | mapped _ _ mapper => .map mapper
  | race _ _ => .race

section Configure

variable (change : Options → Options)

@[simp] theorem options_configure (l : Locator P) :
    (l.configure change).options = change l.options := by
  cases l <;> rfl

@[simp] theorem work_configure (l : Locator P) : (l.configure change).work = l.work := by
  cases l <;> rfl

theorem configureAll_eq_map (ls : List (Locator P)) :
    configureAll change ls = ls.map (configure change) := by
  induction ls with
  | nil => rfl
  | cons l ls ih => rw [configureAll, ih, List.map_cons]

@[simp] theorem inner_configure (l : Locator P) :
    (l.configure change).inner = l.inner.map (configure change) := by
  cases l with
  | race o branches => exact configureAll_eq_map change branches
  | _ => rfl

/-- The same is done to every part, however deep inside. -/
theorem part?_configure (path : List Nat) (l : Locator P) :
    (l.configure change).part? path = (l.part? path).map (configure change) := by
  induction path generalizing l with
  | nil => rfl
  | cons i path ih =>
    rw [part?, part?, inner_configure, List.getElem?_map]
    cases l.inner[i]? with
    | none => rfl
    | some m => exact ih m

end Configure

/-! ### What settings do -/

/-- After settings a part does what it did, and each of its options has the last value that was given
it, or the one it had. -/
structure Reset (settings : List Setting) (before after : Locator P) : Prop where
  work : after.work = before.work
  options : ∀ f, Field.of after.options f = (Field.lastGiven settings f).getD (Field.of before.options f)

theorem part?_set (s : Setting) (path : List Nat) (l : Locator P) :
    (l.set s).part? path = (l.part? path).map (·.set s) :=
  part?_configure s.apply path l

theorem part?_setAll (settings : List Setting) (path : List Nat) (l : Locator P) :
    (l.setAll settings).part? path = (l.part? path).map (·.setAll settings) := by
  induction settings generalizing l with
  | nil => exact Option.map_id_apply.symm
  | cons s settings ih =>
    rw [setAll, List.foldl_cons, ← setAll, ih, part?_set, Option.map_map]
    rfl

theorem options_setAll (settings : List Setting) (l : Locator P) :
    (l.setAll settings).options = settings.foldl (fun o s => s.apply o) l.options := by
  induction settings generalizing l with
  | nil => rfl
  | cons s settings ih => exact (ih (l.set s)).trans (by rw [set, options_configure, List.foldl_cons])

theorem work_setAll (settings : List Setting) (l : Locator P) :
    (l.setAll settings).work = l.work := by
  induction settings generalizing l with
  | nil => rfl
  | cons s settings ih => exact (ih (l.set s)).trans (work_configure s.apply l)

theorem reset_setAll (settings : List Setting) (l : Locator P) : Reset settings l (l.setAll settings) where
  work := work_setAll settings l
  options f := by rw [options_setAll, Field.of_foldl]

/-- Settings reach every part, and make no part and take none away. -/
theorem rel_part?_setAll (settings : List Setting) (path : List Nat) (l : Locator P) :
    Option.Rel (Reset settings) (l.part? path) ((l.setAll settings).part? path) := by
  rw [part?_setAll]
  cases l.part? path with
  | none => exact .none
  | some part => exact .some (reset_setAll settings part)

/-! ### Trees with the same options everywhere -/

/-- A locator that works on what one other finds has the options of that one. -/
def Follows : Locator P → Prop
  | filtered o l _ | mapped o l _ => o = l.options
  | _ => True

/-- All parts that work on what one other finds have the options of that one. -/
def Coherent (l : Locator P) : Prop := ∀ path part, l.part? path = some part → part.Follows

/-- A race is somewhere in the tree. -/
def hasRace : Locator P → Bool
  | node _ _ _ | function _ _ _ => false
  | filtered _ l _ | mapped _ l _ => l.hasRace
  | race _ _ => true

theorem follows_configure (change : Options → Options) {l : Locator P} (h : l.Follows) :
    (l.configure change).Follows := by
  cases l with
  | filtered o l predicate => exact (congrArg change h).trans (options_configure change l).symm
  | mapped o l mapper => exact (congrArg change h).trans (options_configure change l).symm
  | _ => trivial

theorem Coherent.configure (change : Options → Options) {l : Locator P} (h : l.Coherent) :
    (l.configure change).Coherent := by
  intro path part hpart
  rw [part?_configure] at hpart
  obtain ⟨before, hbefore, rfl⟩ := Option.map_eq_some_iff.mp hpart
  exact follows_configure change (h path before hbefore)

/-- What is coherent right inside makes a coherent tree. -/
theorem coherent_of_inner {l : Locator P} (hself : l.Follows) (hinner : ∀ m ∈ l.inner, m.Coherent) :
    l.Coherent := by
  intro path part hpart
  cases path with
  | nil => exact Option.some.inj hpart ▸ hself
  | cons i path =>
    obtain ⟨m, hm, hpart⟩ := Option.bind_eq_some_iff.mp hpart
    exact hinner m (List.mem_of_getElem? hm) path part hpart

theorem Coherent.inner {l m : Locator P} (h : l.Coherent) {i : Nat} (hm : l.inner[i]? = some m) :
    m.Coherent :=
  fun path part hpart => h (i :: path) part (Option.bind_eq_some_iff.mpr ⟨m, hm, hpart⟩)

/-- Without a race, what is right inside has the options of the locator and no race in it. -/
theorem Coherent.step {l m : Locator P} (h : l.Coherent) (hrace : l.hasRace = false) {i : Nat}
    (hm : l.inner[i]? = some m) : m.options = l.options ∧ m.hasRace = false := by
  have hself : l.Follows := h [] l rfl
  have hmem : m ∈ l.inner := List.mem_of_getElem? hm
  cases l with
  | node o page selector => exact absurd hmem List.not_mem_nil
  | function o page script => exact absurd hmem List.not_mem_nil
  | filtered o l predicate =>
    obtain rfl := List.mem_singleton.mp hmem
    exact ⟨Eq.symm hself, hrace⟩
  | mapped o l mapper =>
    obtain rfl := List.mem_singleton.mp hmem
    exact ⟨Eq.symm hself, hrace⟩
  | race o branches => cases hrace

/-- Without a race all parts have the same options. -/
theorem Coherent.uniform {l part : Locator P} (h : l.Coherent) (hrace : l.hasRace = false)
    {path : List Nat} (hpart : l.part? path = some part) : part.options = l.options := by
  induction path generalizing l with
  | nil => exact congrArg options (Option.some.inj hpart).symm
  | cons i path ih =>
    obtain ⟨m, hm, hpart⟩ := Option.bind_eq_some_iff.mp hpart
    obtain ⟨hoptions, hnone⟩ := h.step hrace hm
    exact (ih (h.inner hm) hnone hpart).trans hoptions

/-! ### Programs that make locators -/

/-- A step of a program that makes locators; those it has made it knows by their number. -/
inductive Step (P : Type) where
  | node (page : P) (selector : String)
  | function (page : P) (script : String)
  | filter (i : Nat) (predicate : String)
  | map (i : Nat) (mapper : String)
  | race (branches : List Nat)
  | copy (i : Nat)
  | set (i : Nat) (s : Setting)

/-- What a step makes of the locators that are there. -/
def Step.makes (held : List (Locator P)) : Step P → Option (Locator P)
  | node page selector => some (ofSelector page selector)
  | function page script => some (ofFunction page script)
  | filter i predicate => held[i]?.map (·.filter predicate)
  | map i mapper => held[i]?.map (·.map mapper)
  | race branches => some (anyOf (branches.filterMap (held[·]?)))
  | copy i => held[i]?
  | set _ _ => none

/-- The setting of a step, when it is about such a locator. -/
def Step.settingOf (i : Nat) : Step P → Option Setting
  | set j s => if j = i then some s else none
  | _ => none

/-- The locators that are there after a step: a setter changes one in its place, and what is made
comes last. -/
def Step.run (held : List (Locator P)) (step : Step P) : List (Locator P) :=
  match step with
  | set i s => held.modify i (·.set s)
  | step => held ++ (step.makes held).toList

/-- The locators that a program has made. -/
def made (history : List (Step P)) : List (Locator P) := history.foldl Step.run []

/-- What the program has set on a locator, in order. -/
def settingsOf (i : Nat) (history : List (Step P)) : List Setting := history.filterMap (Step.settingOf i)

theorem settingsOf_cons (i : Nat) (step : Step P) (later : List (Step P)) :
    settingsOf i (step :: later) = (step.settingOf i).toList ++ settingsOf i later := by
  unfold settingsOf
  cases h : step.settingOf i with
  | none => exact List.filterMap_cons_none h
  | some s => exact List.filterMap_cons_some h

/-- A step leaves a locator what it was, but for the setting that is about it. -/
theorem getElem?_run {held : List (Locator P)} {i : Nat} {l : Locator P} (h : held[i]? = some l)
    (step : Step P) : (step.run held)[i]? = some (l.setAll (step.settingOf i).toList) := by
  have hleft (made : List (Locator P)) : (held ++ made)[i]? = some l := by
    rw [List.getElem?_append_left (List.getElem?_eq_some_iff.mp h).1, h]
  cases step with
  | set j s =>
    rw [Step.run, List.getElem?_modify, h, Step.settingOf]
    by_cases hj : j = i
    · rw [if_pos hj]
      exact congrArg some (if_pos hj)
    · rw [if_neg hj]
      exact congrArg some (if_neg hj)
  | _ => exact hleft _

/-- What a program does later leaves a locator what it was, but for what it sets on it: other locators
and what is set on them do not matter, whatever was made of what. -/
theorem getElem?_made_append {history : List (Step P)} {i : Nat} {l : Locator P}
    (h : (made history)[i]? = some l) (later : List (Step P)) :
    (made (history ++ later))[i]? = some (l.setAll (settingsOf i later)) := by
  rw [made, List.foldl_append, ← made]
  generalize made history = held at h
  induction later generalizing held l with
  | nil => exact h
  | cons step later ih =>
    rw [List.foldl_cons, ih _ (getElem?_run h step), settingsOf_cons]
    exact congrArg some List.foldl_append.symm

theorem coherent_makes {held : List (Locator P)} (h : ∀ l ∈ held, l.Coherent) {step : Step P}
    {l : Locator P} (hl : step.makes held = some l) : l.Coherent := by
  cases step with
  | node page selector =>
    cases hl
    exact coherent_of_inner trivial nofun
  | function page script =>
    cases hl
    exact coherent_of_inner trivial nofun
  | filter i predicate =>
    obtain ⟨m, hm, rfl⟩ := Option.map_eq_some_iff.mp hl
    refine coherent_of_inner rfl fun m' hm' => ?_
    obtain rfl := List.mem_singleton.mp hm'
    exact h m' (List.mem_of_getElem? hm)
  | map i mapper =>
    obtain ⟨m, hm, rfl⟩ := Option.map_eq_some_iff.mp hl
    refine coherent_of_inner rfl fun m' hm' => ?_
    obtain rfl := List.mem_singleton.mp hm'
    exact h m' (List.mem_of_getElem? hm)
  | race branches =>
    cases hl
    refine coherent_of_inner trivial fun m hm => ?_
    obtain ⟨i, -, hi⟩ := List.mem_filterMap.mp hm
    exact h m (List.mem_of_getElem? hi)
  | copy i => exact h l (List.mem_of_getElem? hl)
  | set i s => cases hl

/-- A step keeps what it finds coherent, and makes nothing else. -/
theorem coherent_run {held : List (Locator P)} (h : ∀ l ∈ held, l.Coherent) (step : Step P) :
    ∀ l ∈ step.run held, l.Coherent := by
  have hmakes : ∀ l ∈ held ++ (step.makes held).toList, l.Coherent := by
    intro l hl
    rcases List.mem_append.mp hl with hl | hl
    · exact h l hl
    · exact coherent_makes h (Option.mem_toList.mp hl)
  cases step with
  | set i s =>
    intro l hl
    obtain ⟨j, hj⟩ := List.mem_iff_getElem?.mp hl
    rw [Step.run, List.getElem?_modify] at hj
    obtain ⟨m, hm, rfl⟩ := Option.map_eq_some_iff.mp hj
    have hcoherent : m.Coherent := h m (List.mem_of_getElem? hm)
    split
    · exact hcoherent.configure s.apply
    · exact hcoherent
  | _ => exact hmakes

theorem coherent_made (history : List (Step P)) : ∀ l ∈ made history, l.Coherent := by
  have hrun : ∀ held : List (Locator P), (∀ l ∈ held, l.Coherent) →
      ∀ l ∈ history.foldl Step.run held, l.Coherent := by
    induction history with
    | nil => exact fun held h => h
    | cons step history ih => exact fun held h => ih _ (coherent_run h step)
  exact hrun [] nofun

/-- Setters reach the whole tree and nothing else.  Whatever a program has made and set, and whatever it
makes and sets later, a locator keeps its parts; each part does what it did, on the same page and with
the same selector or script, and each of its options has the last value that was set on the locator
since, or the one it had.  At any time, all parts of a locator without a race have the same options. -/
theorem reset_of_history (history : List (Step P)) :
    (∀ i l later, (made history)[i]? = some l →
      ∃ l', (made (history ++ later))[i]? = some l' ∧
        ∀ path, Option.Rel (Reset (settingsOf i later)) (l.part? path) (l'.part? path)) ∧
    ∀ l ∈ made history, l.hasRace = false →
      ∀ path part, l.part? path = some part → part.options = l.options := by
  constructor
  · intro i l later h
    exact ⟨_, getElem?_made_append h later, fun path => rel_part?_setAll _ path l⟩
  · intro l hl hrace path part hpart
    exact (coherent_made history l hl).uniform hrace hpart

/-! ### A race over a filter and a map -/

/-- A program that races a filter, made of a locator that does not wait for enabled elements, against a
map. -/
def contest : List (Step Unit) := [
  .node () "input", .set 0 (.waitForEnabled false), .filter 0 "e => e.value",
  .function () "() => document.body", .map 2 "e => e.parentElement", .race [1, 3]]

/-- What it sets later: an option of the first locator, and two options of the race, one of them twice. -/
def contestLater : List (Step Unit) := [
  .set 0 (.waitForEnabled true), .set 4 (.timeout 500), .set 4 (.visibility (some .visible)),
  .set 4 (.timeout 100)]

/-- The filter. -/
def contestFilter : Locator Unit :=
  filtered ⟨30000, none, true, false, true⟩ (node ⟨30000, none, true, false, true⟩ () "input") "e => e.value"

/-- The map. -/
def contestMap : Locator Unit :=
  mapped .default (function .default () "() => document.body") "e => e.parentElement"

/-- The race is set in every part, and the locator inside the filter keeps the option that was set before
the filter was made; what is set on the first locator later does not reach it. -/
theorem reset_of_contest :
    (∃ l', (made (contest ++ contestLater))[4]? = some l' ∧
      (∀ path, Option.Rel (Reset [.timeout 500, .visibility (some .visible), .timeout 100])
        ((race .default [contestFilter, contestMap]).part? path) (l'.part? path)) ∧
      (l'.part? [0, 0]).map options = some ⟨100, some .visible, true, false, true⟩ ∧
      (l'.part? [1, 0]).map options = some ⟨100, some .visible, true, true, true⟩) ∧
    ∀ path part, contestFilter.part? path = some part → part.options = ⟨30000, none, true, false, true⟩ := by
  have hfilter : (made contest)[1]? = some contestFilter := rfl
  obtain ⟨hreset, huniform⟩ := reset_of_history contest
  obtain ⟨l', hl', hparts⟩ := hreset 4 _ contestLater rfl
  refine ⟨⟨l', hl', hparts, ?_⟩, huniform _ (List.mem_of_getElem? hfilter) rfl⟩
  cases hl'
  exact ⟨rfl, rfl⟩

end Wayfind.Locator
