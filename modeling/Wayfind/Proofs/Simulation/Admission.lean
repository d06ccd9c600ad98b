/-
What a locator may find, as the page was asked.

A locator `Admits` a target by what a recorded page was asked, one question after another: a node
an element that its selector was served at one of these instants, visible or hidden as is asked
for; a filter what its inner locator admits by the questions up to one that looks its predicate
up for it, and when that predicate is then asked it holds; a map what its function makes of such a
target; a race what one of its branches admits.  That more is asked, takes nothing away
(`Admits.append`).
-/
import Wayfind.Proofs.Simulation.Releases

namespace Wayfind

namespace Locator.Options

/-- The element is visible, or hidden, as is asked for. -/
def meets (o : Options) (visible : Bool) : Bool :=
  match o.visibility with
  | none => true
  | some .visible => visible
  | some .hidden => !visible

/-- How a selector is waited for with these options. -/
def wait (o : Options) (ms : Nat) : SelectorWait :=
  ⟨ms, o.visibility == some .visible, o.visibility == some .hidden⟩

/-- What is waited for is what is asked for. -/
theorem seen_wait (o : Options) (ms : Nat) (visible : Bool) :
    (if (o.wait ms).hidden then !visible else !(o.wait ms).visible || visible) = o.meets visible := by
  unfold wait meets
  rcases o.visibility with _ | _ | _ <;> rfl

end Locator.Options

namespace Simulation

/-- By these questions the locator may find the target. -/
inductive Admits : Locator Unit → List Instant → Target → Prop
  | node {o : Locator.Options} {selector : String} {asked : List Instant} {i : Instant} {id : ElementId}
      (hi : i ∈ asked) (hserved : i.world.served.lookup selector = some id)
      (hvisible : o.meets (i.world.element id).visible = true) :
      Admits (.node o () selector) asked (.element id)
  | filtered {o : Locator.Options} {inner : Locator Unit} {predicate : String}
      {before between after : List Instant} {i j : Instant} {handle : Handle} {place : Nat} {id : ElementId}
      (h : Admits inner before (.element id)) (hlookup : i.query = .subject predicate (some handle))
      (hsubject : i.world.subject predicate (some handle) = some (place, id))
      (hquery : j.query = .holds place id) (hholds : (j.world.holds place id).1 = true) :
      Admits (.filtered o inner predicate) (before ++ i :: (between ++ j :: after)) (.element id)
  | mapped {o : Locator.Options} {inner : Locator Unit} {script : String} {before after : List Instant}
      {i : Instant} {id : ElementId} {handle : Handle} {mapper : Mapper}
      (h : Admits inner before (.element id)) (hquery : i.query = .mapHandle handle script)
      (hsubject : i.world.elementFor handle = .ok id) (hmapper : i.world.mappers.lookup script = some mapper) :
      Admits (.mapped o inner script) (before ++ i :: after) (mapper id (i.world.element id))
  | race {o : Locator.Options} {branches : List (Locator Unit)} {l : Locator Unit} {asked : List Instant}
      {target : Target} (hl : l ∈ branches) (h : Admits l asked target) : Admits (.race o branches) asked target

/-- What is asked afterwards takes nothing away. -/
theorem Admits.append {l : Locator Unit} {asked : List Instant} {target : Target} (h : Admits l asked target)
    (more : List Instant) : Admits l (asked ++ more) target := by
  induction h with
  | node hi hserved hvisible => exact .node (List.mem_append_left _ hi) hserved hvisible
  | filtered h hlookup hsubject hquery hholds _ =>
    rw [List.append_assoc, List.cons_append, List.append_assoc]
    exact .filtered h hlookup hsubject hquery hholds
  | mapped h hquery hsubject hmapper _ =>
    rw [List.append_assoc]
    exact .mapped h hquery hsubject hmapper
  | race hl _ ih => exact .race hl ih

/-! ### The functions there may be -/

/-- Of elements page functions make only what such functions make. -/
def Page.Within (maps : String → Mapper → Prop) (p : Page) : Prop :=
  ∀ script mapper, p.mappers.lookup script = some mapper → maps script mapper

/-- No other function of elements comes in. -/
def Query.Within (maps : String → Mapper → Prop) : Query → Prop
  | .change (.onMapper script mapper) => maps script mapper
  | _ => True

/-! ### Locators that suit a page -/

/-- Whatever the locator finds with these functions is an element. -/
def Elemental (maps : String → Mapper → Prop) (l : Locator Unit) : Prop :=
  ∀ asked : List Instant, (∀ i ∈ asked, i.world.Within maps) → ∀ target, Admits l asked target →
    ∃ id, target = .element id

section Elemental

variable {maps : String → Mapper → Prop} {o : Locator.Options} {inner : Locator Unit}

theorem elemental_node (selector : String) : Elemental maps (.node o () selector) := by
  rintro asked - target ⟨⟩
  exact ⟨_, rfl⟩

theorem elemental_filtered (predicate : String) : Elemental maps (.filtered o inner predicate) := by
  rintro asked - target ⟨⟩
  exact ⟨_, rfl⟩

theorem elemental_mapped {script : String}
    (helement : ∀ mapper, maps script mapper → ∀ id e, ∃ made, mapper id e = .element made) :
    Elemental maps (.mapped o inner script) := by
  rintro asked hwithin target h
  cases h with
  | mapped _ _ _ hlookup =>
    exact helement _ (hwithin _ (List.mem_append_right _ List.mem_cons_self) _ _ hlookup) _ _

theorem elemental_race {branches : List (Locator Unit)} (h : ∀ l ∈ branches, Elemental maps l) :
    Elemental maps (.race o branches) := by
  rintro asked hwithin target ⟨⟩
  rename_i l hl hadmits
  exact h l hl asked hwithin target hadmits

end Elemental

/-- The locator has nodes, maps, filters whose predicates the page knows, of locators that find elements
with these functions, and races of such. -/
inductive Suits (maps : String → Mapper → Prop) (page : Page) : Locator Unit → Prop
  | node (o : Locator.Options) (selector : String) : Suits maps page (.node o () selector)
  | filtered (o : Locator.Options) {inner : Locator Unit} {predicate : String} (h : Suits maps page inner)
      (hpredicate : predicate ∈ page.predicates.map Prod.fst) (helement : Elemental maps inner) :
      Suits maps page (.filtered o inner predicate)
  | mapped (o : Locator.Options) {inner : Locator Unit} (script : String) (h : Suits maps page inner) :
      Suits maps page (.mapped o inner script)
  | race (o : Locator.Options) {branches : List (Locator Unit)} (h : ∀ l ∈ branches, Suits maps page l) :
      Suits maps page (.race o branches)

/-! ### What is known by a key -/

section Lists

variable {β : Type} {key k : String} {entries : List (String × β)}

theorem lastPlace?_isSome : (lastPlace? key entries).isSome = true ↔ key ∈ entries.map Prod.fst := by
  induction entries with
  | nil => exact ⟨nofun, nofun⟩
  | cons entry rest ih =>
    obtain ⟨k, v⟩ := entry
    rw [List.map_cons, List.mem_cons, ← ih, lastPlace?]
    rcases lastPlace? key rest with _ | place
    · by_cases hkey : k = key
      · simp [hkey]
      · simp [hkey, Ne.symm hkey]
    · simp

/-- What is looked up is what was set, or it was there before. -/
theorem lookup_put {value found : β} (h : (put key value entries).lookup k = some found) :
    (k = key ∧ found = value) ∨ entries.lookup k = some found := by
  induction entries with
  | nil =>
    rw [put, List.lookup_cons] at h
    split at h
    · rename_i hkey
      exact .inl ⟨eq_of_beq hkey, (Option.some.inj h).symm⟩
    · cases h
  | cons entry rest ih =>
    obtain ⟨k', v⟩ := entry
    unfold put at h
    by_cases hset : k' = key
    · rw [if_pos hset, List.lookup_cons] at h
      subst hset
      rw [List.lookup_cons]
      split at h
      · rename_i hkey
        exact .inl ⟨eq_of_beq hkey, (Option.some.inj h).symm⟩
      · exact .inr h
    · rw [if_neg hset, List.lookup_cons] at h
      rw [List.lookup_cons]
      split at h
      · exact .inr h
      · exact ih h

end Lists

/-! ### Pages one after another -/

variable {maps : String → Mapper → Prop}

/-- The page keeps to these functions, and knows its predicates, when it is asked and when it changes. -/
structure Page.Knows (maps : String → Mapper → Prop) (p after : Page) : Prop where
  within : p.Within maps → after.Within maps
  predicates : p.predicates.map Prod.fst ⊆ after.predicates.map Prod.fst

theorem Page.Knows.of_same {p after : Page} (hmappers : after.mappers = p.mappers)
    (hpredicates : after.predicates = p.predicates) : p.Knows maps after :=
  ⟨fun h script mapper hlookup => h script mapper (hmappers ▸ hlookup), hpredicates ▸ List.Subset.refl _⟩

/-- And its ledger grows, where what was released stays so. -/
structure Page.Precedes (maps : String → Mapper → Prop) (p after : Page) : Prop extends p.Knows maps after where
  created : p.created ≤ after.created
  released : ∀ h : Handle, h.id < p.created → p.isReleased h = true → after.isReleased h = true

namespace Page.Precedes

variable {p after last : Page}

theorem refl (p : Page) : p.Precedes maps p := ⟨.of_same rfl rfl, Nat.le_refl _, fun _ _ h => h⟩

theorem trans (h : p.Precedes maps after) (h' : after.Precedes maps last) : p.Precedes maps last where
  within hp := h'.within (h.within hp)
  predicates := List.Subset.trans h.predicates h'.predicates
  created := Nat.le_trans h.created h'.created
  released handle hid hr := h'.released handle (Nat.lt_of_lt_of_le hid h.created) (h.released handle hid hr)

theorem of_adds {ids : Multiset Nat} (hknows : p.Knows maps after) (hadds : Adds p ids after) :
    p.Precedes maps after := by
  obtain ⟨n, hledger, -⟩ := hadds
  refine ⟨hknows, ?_, fun h hid hr => ?_⟩
  · unfold Page.created
    rw [hledger, Array.size_append]
    exact Nat.le_add_right _ _
  · unfold Page.isReleased at hr ⊢
    rw [hledger, Array.getElem?_append_left hid]
    exact hr

end Page.Precedes

theorem Suits.later {p after : Page} {l : Locator Unit} (h : Suits maps p l) (hknows : p.Knows maps after) :
    Suits maps after l := by
  induction h with
  | node o selector => exact .node o selector
  | filtered o _ hpredicate helement ih => exact .filtered o ih (hknows.predicates hpredicate) helement
  | mapped o script _ ih => exact .mapped o script ih
  | race o _ ih => exact .race o ih

theorem knows_call (p : Page) (script : String) : p.Knows maps (p.call script).2 := by
  unfold Page.call
  split
  · exact .of_same rfl rfl
  · split <;> exact .of_same rfl rfl

theorem knows_newHandles (targets : List Target) (p : Page) : p.Knows maps (p.newHandles targets).2 := by
  induction targets generalizing p with
  | nil => exact .of_same rfl rfl
  | cons target rest ih =>
    have hrest := ih (p.newHandle target).2
    exact ⟨hrest.within, hrest.predicates⟩

theorem knows_onHandle {α : Type} (p : Page) (h : Handle) (act : Element → Except Error α × Element) :
    p.Knows maps (p.onHandle h act).2 := by
  unfold Page.onHandle
  split <;> exact .of_same rfl rfl

/-- A predicate that is asked stays in its place. -/
theorem knows_holds (p : Page) (place : Nat) (element : ElementId) :
    p.Knows maps (p.holds place element).2 := by
  unfold Page.holds
  split
  · exact .of_same rfl rfl
  · rename_i script predicate hplace
    obtain ⟨hlt, hentry⟩ := List.getElem?_eq_some_iff.mp hplace
    have hkey : place < (p.predicates.map Prod.fst).length := by rwa [List.length_map]
    have hscript : script = (p.predicates.map Prod.fst)[place] := by simp [hentry]
    refine ⟨id, ?_⟩
    show _ ⊆ (p.predicates.set place _).map Prod.fst
    rw [List.map_set, hscript, List.set_getElem_self]
    exact List.Subset.refl _

theorem knows_change (p : Page) {c : Change} (hc : (Query.change c).Within maps) : p.Knows maps (c.apply p) := by
  cases c with
  | onPredicate script holds =>
    refine ⟨id, ?_⟩
    show _ ⊆ (p.predicates ++ [_]).map Prod.fst
    rw [List.map_append]
    exact List.subset_append_left _ _
  | onMapper script mapper =>
    refine ⟨fun hp key found h => ?_, List.Subset.refl _⟩
    rcases lookup_put h with ⟨rfl, rfl⟩ | hold
    · exact hc
    · exact hp key found hold
  | _ => exact .of_same rfl rfl

theorem knows_answer (p : Page) {q : Query} (hq : q.Within maps) : p.Knows maps (p.answer q).2 := by
  cases q with
  | look selector wait =>
    simp only [Page.answer, Page.look]
    split
    · exact .of_same rfl rfl
    · split <;> split <;> exact .of_same rfl rfl
  | find selector =>
    simp only [Page.answer, Page.find]
    split <;> exact .of_same rfl rfl
  | call script => exact knows_call p script
  | callHandle script =>
    have hcall : p.Knows maps (p.call script).2 := knows_call p script
    simp only [Page.answer, Page.callHandle]
    revert hcall
    generalize p.call script = called
    rintro ⟨hwithin, hpredicates⟩
    obtain ⟨r, after⟩ := called
    cases r <;> exact ⟨hwithin, hpredicates⟩
  | newHandles targets => exact knows_newHandles targets p
  | holds place id => exact knows_holds p place id
  | mapHandle h script =>
    simp only [Page.answer, Page.mapHandle]
    split
    · exact .of_same rfl rfl
    · split <;> exact .of_same rfl rfl
  | evaluate h script args => exact knows_onHandle p h _
  | click h options => exact knows_onHandle p h _
  | hover h => exact knows_onHandle p h _
  | focus h => exact knows_onHandle p h _
  | typeText h text => exact knows_onHandle p h _
  | select h values => exact knows_onHandle p h _
  | scrollIntoView h => exact knows_onHandle p h _
  | isInViewport h => exact knows_onHandle p h _
  | change c => exact knows_change p hq
  | _ => exact .of_same rfl rfl

/-- Whatever a page is asked, it precedes the page after the answer. -/
theorem precedes_answer (p : Page) {q : Query} (hq : q.Within maps) : p.Precedes maps (p.answer q).2 := by
  have hknows := knows_answer p hq
  by_cases hrelease : isRelease q = true
  · cases q with
    | release h =>
      refine ⟨hknows, Nat.le_of_eq (Array.size_setIfInBounds ..).symm, ?_⟩
      intro handle hid hr
      simp only [Page.isReleased, Page.answer, Page.release, Array.getElem?_setIfInBounds] at hr ⊢
      split
      · split <;> rfl
      · exact hr
    | _ => cases hrelease
  · exact .of_adds hknows (adds_answer p (Bool.eq_false_of_not_eq_true hrelease))

/-! ### What has happened -/

/-- A page, what it was asked, and the races on it: with every inbox, in order, the locators that look for
the race, and how much had been asked when the attempt began that races. -/
structure History (maps : String → Mapper → Prop) where
  page : Page
  record : List Instant
  races : List (List (Locator Unit) × Nat)
  /-- The functions were always of these. -/
  within : page.Within maps ∧ ∀ i ∈ record, i.world.Within maps

namespace History

/-- More was asked, more races were begun, and the page is as it came of that. -/
structure Precedes (past now : History maps) : Prop where
  page : past.page.Precedes maps now.page
  record : past.record <+: now.record
  races : past.races <+: now.races

instance : Preorder (History maps) where
  le := Precedes
  le_refl past := ⟨.refl past.page, List.prefix_rfl, List.prefix_rfl⟩
  le_trans _ _ _ h h' := ⟨h.page.trans h'.page, h.record.trans h'.record, h.races.trans h'.races⟩

/-- The page is asked something. -/
def asked (past : History maps) (q : Query) (hq : q.Within maps) : History maps where
  page := (past.page.answer q).2
  record := past.record ++ [⟨past.page, q⟩]
  races := past.races
  within := by
    refine ⟨(knows_answer past.page hq).within past.within.1, fun i hi => ?_⟩
    rcases List.mem_append.mp hi with hi | hi
    · exact past.within.2 i hi
    · rw [List.mem_singleton.mp hi]
      exact past.within.1

/-- A race is begun. -/
def raced (past : History maps) (race : List (Locator Unit) × Nat) : History maps :=
  { past with races := past.races ++ [race] }

theorem le_asked (past : History maps) {q : Query} (hq : q.Within maps) : past ≤ past.asked q hq :=
  ⟨precedes_answer past.page hq, List.prefix_append _ _, List.prefix_rfl⟩

theorem le_raced (past : History maps) (race : List (Locator Unit) × Nat) : past ≤ past.raced race :=
  ⟨.refl _, List.prefix_rfl, List.prefix_append _ _⟩

/-- The handle is one that the locator may have found by what was asked since an attempt began, unless it
is released. -/
structure Vouches (past : History maps) (l : Locator Unit) (began : Nat) (h : Handle) : Prop where
  made : h.id < past.page.created
  admits : past.page.isReleased h = true ∨ Admits l (past.record.drop began) h.target

variable {past now : History maps} {l : Locator Unit} {began : Nat} {h : Handle}

theorem Vouches.later (hv : past.Vouches l began h) (hle : past ≤ now) : now.Vouches l began h := by
  refine ⟨Nat.lt_of_lt_of_le hv.made hle.page.created,
    hv.admits.imp (hle.page.released h hv.made) fun hadmits => ?_⟩
  obtain ⟨more, hmore⟩ := hle.record.drop began
  rw [← hmore]
  exact hadmits.append more

/-- What lies in an inbox, or is put there, was found by somebody who looks for its race. -/
def Vouched (past : History maps) (k : Activity.Inbox) (m : Except Error Handle) : Prop :=
  ∀ h, m = .ok h → ∃ race, past.races[k]? = some race ∧ ∃ l ∈ race.1, past.Vouches l race.2 h

theorem race_of_le {k : Activity.Inbox} {race : List (Locator Unit) × Nat} (hle : past ≤ now)
    (h : past.races[k]? = some race) : now.races[k]? = some race := by
  obtain ⟨more, hmore⟩ := hle.races
  rw [← hmore]
  exact (List.getElem?_append_left (List.getElem?_eq_some_iff.mp h).1).trans h

theorem Vouched.later {k : Activity.Inbox} {m : Except Error Handle} (hm : past.Vouched k m)
    (hle : past ≤ now) : now.Vouched k m := by
  intro h hok
  obtain ⟨race, hrace, l, hl, hv⟩ := hm h hok
  exact ⟨race, race_of_le hle hrace, l, hl, hv.later hle⟩

end History

end Simulation

end Wayfind
