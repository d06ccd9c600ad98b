/-
How a field that is filled comes to hold the text.

An attempt reads what a field holds and then either types what is missing or empties the
field and types everything; typing may fail after any character.  A `Sheet` is what a world
shows of the texts of its elements and of what has been done to them.  Where reading,
emptying and typing do what they say (`Sheet.Fillable`), every attempt goes along the course
that the text it read asks for, and only as far as it gets; the attempt that succeeds has
gone all the way, so the field then holds the text, whatever the attempts before it left.
-/
import Wayfind.Proofs.Page.Guiding

namespace Wayfind

open Activity (KeptBy Request Timeline Token)
open PageSide (Action)

/-! ### Courses -/

/-- What is done to the text of an element. -/
inductive Touch (E : Type) where
  | read (e : E) (text : String)
  | clear (e : E)
  | key (e : E) (c : Char)
  /-- The text is set as a whole. -/
  | set (e : E) (text : String)
deriving DecidableEq

/-- A text is typed, character by character. -/
def keys {E : Type} (e : E) (text : String) : List (Touch E) := text.toList.map (.key e)

theorem clear_notMem_keys {E : Type} (e : E) (text : String) : Touch.clear e ∉ keys e text := by
  simp [keys]

/-- What it takes to give an element a text, where some elements may take it as a `whole`. -/
inductive Course {E : Type} (whole : Prop) (desired : String) (e : E) : List (Touch E) → Prop where
  /-- The text goes on where the element's own ends: only what is missing is typed. -/
  | extend {current rest : String} (hrest : rest ≠ "") (hdesired : desired = current ++ rest) :
    Course whole desired e (.read e current :: keys e rest)
  /-- The text does not go on so: the element is emptied, and all of the text is typed. -/
  | replace {current : String} (hdesired : ∀ rest, desired = current ++ rest → rest = "") :
    Course whole desired e (.read e current :: .clear e :: keys e desired)
  /-- The element takes its text as a whole. -/
  | assign (hwhole : whole) : Course whole desired e [.set e desired]

/-- The beginning of what it takes to give an element a text.  Where reading and emptying are `firm`,
nothing comes between them. -/
def IsAttempt {E : Type} (firm whole : Prop) (desired : String) (piece : List (Touch E)) : Prop :=
  ∃ e course, Course whole desired e course ∧ piece <+: course ∧
    (firm → ∀ text, piece = [.read e text] → .clear e ∉ course)

section Course

variable {E : Type} {firm whole : Prop} {desired current : String} {e : E}

/-- A text goes on where another ends, or it does not. -/
theorem extends_or_replaces (current desired : String) :
    (∃ rest, rest ≠ "" ∧ desired = current ++ rest) ∨ ∀ rest, desired = current ++ rest → rest = "" := by
  by_cases hextends : ∃ rest, rest ≠ "" ∧ desired = current ++ rest
  · exact .inl hextends
  · exact .inr fun rest hdesired => by_contra fun hrest => hextends ⟨rest, hrest, hdesired⟩

/-- Whatever was read, there is a course that begins so. -/
theorem exists_course (whole : Prop) (desired current : String) (e : E) :
    ∃ rest, Course whole desired e (.read e current :: rest) := by
  rcases extends_or_replaces current desired with ⟨rest, hrest, hdesired⟩ | hreplace
  · exact ⟨_, .extend hrest hdesired⟩
  · exact ⟨_, .replace hreplace⟩

theorem Course.isAttempt {course : List (Touch E)} (h : Course whole desired e course) :
    IsAttempt firm whole desired course :=
  ⟨e, course, h, List.prefix_rfl, fun _ text hpiece => by simp [hpiece]⟩

theorem isAttempt_nil (firm whole : Prop) (desired : String) (e : E) :
    IsAttempt firm whole desired ([] : List (Touch E)) := by
  obtain ⟨rest, hcourse⟩ := exists_course whole desired "" e
  exact ⟨e, _, hcourse, List.nil_prefix, fun _ _ hpiece => absurd hpiece nofun⟩

theorem read_notMem_keys (e e' : E) (shown text : String) : Touch.read e shown ∉ keys e' text := by
  simp [keys]

/-- An attempt that gets to read a text leaves it exactly when the desired one goes on where it ends, or
when it gets no further, as it may where something can come between reading and emptying. -/
theorem IsAttempt.uncleared_iff {piece : List (Touch E)} (h : IsAttempt firm whole desired piece)
    {shown : String} (hread : .read e shown ∈ piece) :
    .clear e ∉ piece ↔ (∃ rest, rest ≠ "" ∧ desired = shown ++ rest) ∨ ¬ firm ∧ piece = [.read e shown] := by
  obtain ⟨e', course, hcourse, hpiece, hcut⟩ := h
  have hmem := hpiece.subset hread
  cases hcourse with
  | extend hrest hdesired =>
    obtain ⟨rfl, rfl⟩ := Touch.read.inj ((List.mem_cons.mp hmem).resolve_right (read_notMem_keys _ _ _ _))
    have huncleared : .clear e ∉ piece := fun hclear =>
      clear_notMem_keys e _ ((List.mem_cons.mp (hpiece.subset hclear)).resolve_left nofun)
    exact ⟨fun _ => .inl ⟨_, hrest, hdesired⟩, fun _ => huncleared⟩
  | replace hdesired =>
    have hfirst := (List.mem_cons.mp hmem).resolve_right fun hlater =>
      read_notMem_keys _ _ _ _ ((List.mem_cons.mp hlater).resolve_left nofun)
    obtain ⟨rfl, rfl⟩ := Touch.read.inj hfirst
    rcases List.prefix_cons_iff.mp hpiece with rfl | ⟨after, rfl, hafter⟩
    · exact absurd hread List.not_mem_nil
    · rcases List.prefix_cons_iff.mp hafter with rfl | ⟨_, rfl, -⟩
      · exact ⟨fun _ => .inr ⟨fun hfirm => hcut hfirm _ rfl (by simp), rfl⟩, fun _ => by simp⟩
      · refine ⟨fun huncleared => absurd (by simp) huncleared, ?_⟩
        rintro (⟨rest, hrest, hsame⟩ | ⟨-, hshort⟩)
        · exact absurd (hdesired rest hsame) hrest
        · exact absurd (List.cons.inj hshort).2 nofun
  | assign => exact absurd (List.mem_singleton.mp hmem) nofun

/-- Where the desired text goes on, an attempt types only what is missing. -/
theorem IsAttempt.types_missing {piece : List (Touch E)} (h : IsAttempt firm whole desired piece)
    {shown rest : String} (hread : .read e shown ∈ piece) (hrest : rest ≠ "") (hsame : desired = shown ++ rest) :
    piece <+: .read e shown :: keys e rest := by
  obtain ⟨e', course, hcourse, hpiece, -⟩ := h
  have hmem := hpiece.subset hread
  cases hcourse with
  | extend _ hdesired =>
    obtain ⟨rfl, rfl⟩ := Touch.read.inj ((List.mem_cons.mp hmem).resolve_right (read_notMem_keys _ _ _ _))
    obtain rfl := (String.append_right_inj shown).mp (hdesired.symm.trans hsame)
    exact hpiece
  | replace hdesired =>
    have hfirst := (List.mem_cons.mp hmem).resolve_right fun hlater =>
      read_notMem_keys _ _ _ _ ((List.mem_cons.mp hlater).resolve_left nofun)
    obtain ⟨-, rfl⟩ := Touch.read.inj hfirst
    exact absurd (hdesired rest hsame) hrest
  | assign => exact absurd (List.mem_singleton.mp hmem) nofun

end Course

/-! ### Plans -/

section Plan

variable {current desired rest : String}

/-- A text that goes on is completed. -/
theorem TypingPlan.between_extend (hrest : rest ≠ "") (hdesired : desired = current ++ rest) :
    TypingPlan.between current desired = ⟨false, rest⟩ := by
  have hlonger : current.toList.length < desired.toList.length := by
    have hpos : 0 < rest.toList.length :=
      List.length_pos_iff.mpr (mt String.toList_eq_nil_iff.mp hrest)
    rw [hdesired, String.toList_append, List.length_append]
    omega
  have hdrop : desired.toList.drop current.toList.length = rest.toList := by
    rw [hdesired, String.toList_append, List.drop_left]
  have hbegins : current.toList.isPrefixOf desired.toList = true := by
    rw [List.isPrefixOf_iff_prefix, hdesired, String.toList_append]
    exact List.prefix_append _ _
  unfold TypingPlan.between
  simp only [hbegins, hlonger, hdrop, decide_true, Bool.and_true, if_true, String.ofList_toList]

/-- A text that does not go on is typed anew. -/
theorem TypingPlan.between_replace (h : ∀ rest, desired = current ++ rest → rest = "") :
    TypingPlan.between current desired = ⟨true, desired⟩ := by
  unfold TypingPlan.between
  refine if_neg fun hextends => ?_
  simp only [Bool.and_eq_true, decide_eq_true_eq, List.isPrefixOf_iff_prefix] at hextends
  obtain ⟨⟨rest, hrest⟩, hlonger⟩ := hextends
  have hempty : String.ofList rest = "" :=
    h _ (String.toList_inj.mp (by rw [String.toList_append, String.toList_ofList, hrest]))
  have hnil : rest = [] := by simpa using congrArg String.toList hempty
  rw [← hrest, hnil, List.append_nil] at hlonger
  exact Nat.lt_irrefl _ hlonger

/-- The plan that is made byte by byte: whether to clear the field, and the bytes to type. -/
def TypingPlan.ofBytes (current desired : ByteArray) : Bool × ByteArray :=
  if desired.size ≤ current.size ∨ ¬ current.data.toList <+: desired.data.toList then (true, desired)
  else (false, desired.extract current.size desired.size)

/-- A text whose bytes start with those of another goes on where the other ends. -/
theorem exists_append_of_bytes
    (h : current.toByteArray.data.toList <+: desired.toByteArray.data.toList) :
    ∃ rest, desired = current ++ rest := by
  obtain ⟨missing, hmissing⟩ := h
  have hbytes : current.toList.utf8Encode ++ ⟨missing.toArray⟩ = desired.toList.utf8Encode := by
    rw [String.utf8Encode_toList, String.utf8Encode_toList]
    exact ByteArray.ext (Array.toList_inj.mp (by rw [ByteArray.data_append, Array.toList_append, hmissing]))
  obtain ⟨rest, hrest⟩ := List.isPrefix_of_utf8Encode_append_eq_utf8Encode _ hbytes
  exact ⟨String.ofList rest, String.toList_inj.mp (by rw [String.toList_append, String.toList_ofList, hrest])⟩

/-- To compare and to cut the texts byte by byte is the same: what is cut off is a text by itself. -/
theorem TypingPlan.between_eq_ofBytes (current desired : String) :
    ((between current desired).clear, (between current desired).text.toByteArray) =
      ofBytes current.toByteArray desired.toByteArray := by
  by_cases h : ∃ rest, rest ≠ "" ∧ desired = current ++ rest
  · obtain ⟨rest, hrest, rfl⟩ := h
    have hlonger : ¬ (current ++ rest).toByteArray.size ≤ current.toByteArray.size := by
      have hpos : rest.utf8ByteSize ≠ 0 := mt String.utf8ByteSize_eq_zero_iff.mp hrest
      rw [String.toByteArray_append, ByteArray.size_append, String.size_toByteArray, String.size_toByteArray]
      omega
    have hbegins : current.toByteArray.data.toList <+: (current ++ rest).toByteArray.data.toList := by
      rw [String.toByteArray_append, ByteArray.data_append, Array.toList_append]
      exact List.prefix_append _ _
    rw [between_extend hrest rfl, ofBytes, if_neg (not_or.mpr ⟨hlonger, not_not_intro hbegins⟩),
      String.toByteArray_append, ByteArray.size_append, ByteArray.extract_append_eq_right rfl rfl]
  · have hreplace : ∀ rest, desired = current ++ rest → rest = "" := fun rest hdesired =>
      Decidable.byContradiction fun hrest => h ⟨rest, hrest, hdesired⟩
    rw [between_replace hreplace, ofBytes, if_pos]
    by_cases hbegins : current.toByteArray.data.toList <+: desired.toByteArray.data.toList
    · obtain ⟨rest, hrest⟩ := exists_append_of_bytes hbegins
      rw [hrest, hreplace rest hrest, String.append_empty]
      exact .inl (Nat.le_refl _)
    · exact .inr hbegins

end Plan

/-! ### Sheets -/

variable {B : PageSide} {K : Activity.Backend B.signature} {α : Type}

/-- What a world shows of the texts of its elements, and of all that was done to them. -/
structure Sheet (K : Activity.Backend B.signature) where
  View : Type
  Element : Type
  view : K.World → View
  /-- The element behind a handle. -/
  element : B.Handle → Element
  text : View → Element → String
  /-- What was done, one after another. -/
  log : View → List (Touch Element)

namespace Sheet

variable (s : Sheet K)

/-- A beginning of this was done, such as is allowed. -/
def Partly (stops : List (Touch s.Element) → Prop) (whole : List (Touch s.Element)) (v u : s.View) : Prop :=
  ∃ done, done <+: whole ∧ stops done ∧ s.log u = s.log v ++ done

/-- The action does this to an element, and all of it if it succeeds; then the element has such a text. -/
def Makes (stops : List (Touch s.Element) → Prop) (whole : List (Touch s.Element)) (e : s.Element)
    (text : String) (R : α → Prop) (a : B.Action α) (v : s.View) : Prop :=
  ∀ known, Guides K s.view (s.Partly stops whole v)
    (EndsIn (fun x u => R x ∧ s.log u = s.log v ++ whole ∧ s.text u e = text) (s.Partly stops whole v)) a known v

/-- Elements can be filled: reading gives the text, emptying leaves none, and typing appends characters,
though it may fail after any of them.  Nothing else that is asked for changes a text, by whoever fills or
by those whom the requests that it makes set to work.  Where reading and emptying are `firm`, nothing comes
between them.  Only where elements may take their text as a `whole` are there such that options are selected
in or that a value is set of. -/
structure Fillable (b : Browser B) (permits : Request B.signature → Prop) (mild : B.Query → Prop)
    (firm whole : Prop) : Prop where
  browser : b.Innocent mild
  asks : ∀ (l : Locator B.Page) desired signal, Activity.Asks permits (l.perform b (.fill desired) signal).outcome
  tames : Activity.Tames K permits mild
  kept : ∀ v, KeptBy K mild fun w => s.view w = v
  inViewport : ∀ o h, (Readiness.inViewport b.realm o h).Innocent mild
  stable : ∀ o h, (Readiness.stable b.realm o h).Innocent mild
  enabled : ∀ o h, (Readiness.enabled b.realm o h).Innocent mild
  kind : ∀ h known v, Guides K s.view (· = v) (fun r _ u => u = v ∧
    ∀ doc k, r = .ok doc → FillKind.ofJson? doc = some k → whole ∨ k ≠ .select ∧ k ≠ .otherInput)
    (b.realm.evaluate h ElementScript.fillKind []) known v
  reads : ∀ h v, s.Makes (fun done => firm → done = []) [.read (s.element h) (s.text v (s.element h))]
    (s.element h) (s.text v (s.element h)) (fun doc => doc = .string (s.text v (s.element h)))
    (b.realm.evaluate h ElementScript.text []) v
  clears : ∀ h v, s.Makes (fun done => firm → done ≠ []) [.clear (s.element h)] (s.element h) ""
    (fun _ => True) (b.realm.evaluate h ElementScript.clear []) v
  types : ∀ h text v, s.Makes (fun _ => True) (keys (s.element h) text) (s.element h)
    (s.text v (s.element h) ++ text) (fun _ => True) (b.realm.typeText h text) v
  selects : whole → ∀ h text v, s.Makes (fun _ => True) [.set (s.element h) text] (s.element h) text
    (fun _ => True) (b.realm.select h [text]) v
  assigns : whole → ∀ h text v, s.Makes (fun _ => True) [.set (s.element h) text] (s.element h) text
    (fun _ => True) (do
      b.realm.focus h
      let _ ← b.realm.evaluate h ElementScript.assign [.value (.string text)]) v

/-! ### One attempt -/

variable (firm whole : Prop) (desired : String)

/-- An attempt was made as far as it got. -/
def Underway (v u : s.View) : Prop := ∃ piece, IsAttempt firm whole desired piece ∧ s.log u = s.log v ++ piece

/-- An element was given the text. -/
def Given (v u : s.View) : Prop :=
  ∃ e course, Course whole desired e course ∧ s.log u = s.log v ++ course ∧ s.text u e = desired

variable {s firm whole desired} {b : Browser B}
  {permits : Request B.signature → Prop} {mild : B.Query → Prop}

theorem Given.underway {v u : s.View} (h : s.Given whole desired v u) : s.Underway firm whole desired v u := by
  obtain ⟨e, course, hcourse, hlog, -⟩ := h
  exact ⟨course, hcourse.isAttempt, hlog⟩

theorem underway_refl (e : s.Element) (v : s.View) : s.Underway firm whole desired v v :=
  ⟨[], isAttempt_nil firm whole desired e, (List.append_nil _).symm⟩

/-- An attempt that has come so far goes on along its course. -/
theorem Partly.underway {v mid u : s.View} {e : s.Element} {S : List (Touch s.Element) → Prop}
    {first rest : List (Touch s.Element)} (hcourse : Course whole desired e (first ++ rest))
    (hmid : s.log mid = s.log v ++ first) (h : s.Partly S rest mid u)
    (hfirm : ∀ done, S done → firm → ∀ text, first ++ done = [.read e text] → .clear e ∉ first ++ rest) :
    s.Underway firm whole desired v u := by
  obtain ⟨done, hdone, hstops, hlog⟩ := h
  refine ⟨first ++ done, ⟨e, _, hcourse, (List.prefix_append_right_inj first).mpr hdone, hfirm done hstops⟩, ?_⟩
  rw [hlog, hmid, List.append_assoc]

/-- What is typed at last completes the course. -/
theorem Fillable.typeRest (hs : s.Fillable b permits mild firm whole) {h : B.Handle} {v mid : s.View}
    {first : List (Touch s.Element)} {text : String}
    (hcourse : Course whole desired (s.element h) (first ++ keys (s.element h) text))
    (hmid : s.log mid = s.log v ++ first) (htext : s.text mid (s.element h) ++ text = desired)
    (hfirm : ∀ done shown, first ++ done = [.read (s.element h) shown] →
      .clear (s.element h) ∉ first ++ keys (s.element h) text) (known : List Token) :
    Guides K s.view (s.Underway firm whole desired v)
      (EndsIn (fun _ => s.Given whole desired v) (s.Underway firm whole desired v)) (b.realm.typeText h text) known mid := by
  have hunderway (u : s.View) (hu : s.Partly (fun _ => True) (keys (s.element h) text) mid u) :
      s.Underway firm whole desired v u :=
    hu.underway hcourse hmid fun done _ _ => hfirm done
  refine ((hs.types h text mid known).relax hunderway).mono fun r known u hr => ?_
  cases r with
  | ok x =>
    refine ⟨_, _, hcourse, ?_, hr.2.2.trans htext⟩
    rw [hr.2.1, hmid, List.append_assoc]
  | error e => exact hunderway u hr

/-- A field whose text was read is completed or replaced. -/
theorem Fillable.typed (hs : s.Fillable b permits mild firm whole) (h : B.Handle) (known : List Token) (v : s.View) :
    Guides K s.view (s.Underway firm whole desired v)
      (EndsIn (fun _ => s.Given whole desired v) (s.Underway firm whole desired v)) (do
        let current := ((← b.realm.evaluate h ElementScript.text []).string?).getD ""
        let plan := TypingPlan.between current desired
        if plan.clear then
          let _ ← b.realm.evaluate h ElementScript.clear []
        b.realm.typeText h plan.text) known v := by
  let e := s.element h
  let current := s.text v e
  obtain ⟨rest, hcourse⟩ := exists_course whole desired current e
  have hread (u : s.View) (hu : s.Partly (fun done => firm → done = []) [.read e current] v u) :
      s.Underway firm whole desired v u := by
    obtain ⟨done, hdone, hstops, hlog⟩ := hu
    refine ⟨done, ⟨e, _, hcourse, hdone.trans (List.prefix_append [_] rest), fun hfirm text hpiece => ?_⟩, hlog⟩
    exact absurd ((hstops hfirm).symm.trans hpiece) nofun
  refine ((hs.reads h v known).relax hread).andThen ?_ fun e known u hr => hread u hr
  rintro doc known mid ⟨rfl, hlog, htext⟩
  show Guides K s.view _ _ (do
    let plan := TypingPlan.between current desired
    if plan.clear then
      let _ ← b.realm.evaluate h ElementScript.clear []
    b.realm.typeText h plan.text) known mid
  rcases extends_or_replaces current desired with ⟨rest, hrest, hdesired⟩ | hreplace
  · simp only [TypingPlan.between_extend hrest hdesired]
    have hcourse : Course whole desired e ([.read e current] ++ keys e rest) := .extend hrest hdesired
    refine hs.typeRest hcourse hlog ?_ ?_ known
    · rw [htext, hdesired]
    · intro done shown _ hclear
      exact clear_notMem_keys e rest ((List.mem_cons.mp hclear).resolve_left nofun)
  · simp only [TypingPlan.between_replace hreplace]
    have hcourse : Course whole desired e ([.read e current] ++ (.clear e :: keys e desired)) := .replace hreplace
    have hclear (u : s.View) (hu : s.Partly (fun done => firm → done ≠ []) [.clear e] mid u) :
        s.Underway firm whole desired v u := by
      obtain ⟨done, hdone, hstops, hu⟩ := hu
      have hdone' : done <+: .clear e :: keys e desired := hdone.trans (List.prefix_append [_] _)
      refine Partly.underway (S := fun done => firm → done ≠ []) hcourse hlog ⟨done, hdone', hstops, hu⟩
        fun done hstops hfirm text hpiece => ?_
      exact absurd (List.cons.inj hpiece).2 (hstops hfirm)
    refine ((hs.clears h mid known).relax hclear).andThen ?_ fun e known u hr => hclear u hr
    rintro _ known u ⟨-, hu, hempty⟩
    have hcleared : Course whole desired e ([.read e current, .clear e] ++ keys e desired) := hcourse
    refine hs.typeRest hcleared ?_ ?_ ?_ known
    · rw [hu, hlog, List.append_assoc]
      rfl
    · rw [hempty, String.empty_append]
    · exact fun done shown hpiece => absurd (List.cons.inj hpiece).2 nofun

/-- What takes a text as a whole is given it at once. -/
theorem Makes.given {h : B.Handle} {a : B.Action α} {v : s.View}
    (hwhole : whole)
    (ha : s.Makes (fun _ => True) [.set (s.element h) desired] (s.element h) desired (fun _ => True) a v)
    (known : List Token) :
    Guides K s.view (s.Underway firm whole desired v)
      (EndsIn (fun _ => s.Given whole desired v) (s.Underway firm whole desired v)) a known v := by
  have hcourse : Course whole desired (s.element h) ([] ++ [.set (s.element h) desired]) := .assign hwhole
  have hunderway (u : s.View) (hu : s.Partly (fun _ => True) [.set (s.element h) desired] v u) :
      s.Underway firm whole desired v u :=
    hu.underway hcourse (List.append_nil _).symm fun _ _ _ _ _ => by simp
  refine ((ha known).relax hunderway).mono fun r known u hr => ?_
  cases r with
  | ok x => exact ⟨_, _, hcourse, hr.2⟩
  | error e => exact hunderway u hr

/-- To fill an element gives it the text, or goes along the course as far as it gets. -/
theorem Fillable.fill (hs : s.Fillable b permits mild firm whole) (h : B.Handle) (known : List Token) (v : s.View) :
    Guides K s.view (s.Underway firm whole desired v)
      (EndsIn (fun _ => s.Given whole desired v) (s.Underway firm whole desired v)) (b.realm.fill h desired) known v := by
  have hstill : s.Underway firm whole desired v v := underway_refl (s.element h) v
  refine ((hs.kind h known v).relax fun u hu => hu ▸ hstill).andThen ?_ ?_
  · rintro doc known u ⟨hu, hkind⟩
    subst hu
    cases hread : FillKind.ofJson? doc with
    | none => exact hstill
    | some k =>
      have hk := hkind doc k rfl hread
      cases k with
      | select =>
        have hwhole := hk.resolve_right fun hother => hother.1 rfl
        exact ((hs.selects hwhole h desired u).given hwhole known).andThen (fun _ _ _ hr => hr) fun _ _ _ hr => hr
      | typeableInput => exact hs.typed h known u
      | contenteditable => exact hs.typed h known u
      | otherInput =>
        have hwhole := hk.resolve_right fun hother => hother.2 rfl
        exact (hs.assigns hwhole h desired u).given hwhole known
      | unknown => exact hstill
  · rintro e known _ ⟨rfl, -⟩
    exact hstill

/-- Before it is filled the element has to be fit, and to see that does nothing to it. -/
theorem Fillable.act (hs : s.Fillable b permits mild firm whole) (o : Locator.Options) (h : B.Handle)
    (known : List Token) (v : s.View) :
    Guides K s.view (s.Underway firm whole desired v)
      (EndsIn (fun _ => s.Given whole desired v) (s.Underway firm whole desired v)) (Locator.act b.realm o h (.fill desired)) known v := by
  have hstill : s.Underway firm whole desired v v := underway_refl (s.element h) v
  refine (guides_innocent (hs.inViewport o h) hs.kept hstill).andThen ?_ fun e known u hr => hr.1 ▸ hstill
  rintro _ known _ ⟨rfl, -⟩
  refine (guides_innocent (hs.stable o h) hs.kept hstill).andThen ?_ fun e known u hr => hr.1 ▸ hstill
  rintro _ known _ ⟨rfl, -⟩
  refine (guides_innocent (hs.enabled o h) hs.kept hstill).andThen ?_ fun e known u hr => hr.1 ▸ hstill
  rintro _ known _ ⟨rfl, -⟩
  exact guides_perform nofun rfl fun _ _ => hs.fill h known _

/-! ### All attempts -/

variable (s firm whole desired)

/-- Attempts were made, one after another. -/
def Tried (v u : s.View) : Prop :=
  ∃ pieces : List (List (Touch s.Element)), (∀ piece ∈ pieces, IsAttempt firm whole desired piece) ∧
    s.log u = s.log v ++ pieces.flatten

/-- Attempts were made, and then an element was given the text. -/
def Filled (v u : s.View) : Prop := ∃ mid, s.Tried firm whole desired v mid ∧ s.Given whole desired mid u

variable {s firm whole desired}

theorem tried_refl (v : s.View) : s.Tried firm whole desired v v := ⟨[], nofun, (List.append_nil _).symm⟩

theorem Tried.snoc {v mid u : s.View} (h : s.Tried firm whole desired v mid) (hlast : s.Underway firm whole desired mid u) :
    s.Tried firm whole desired v u := by
  obtain ⟨pieces, hpieces, hmid⟩ := h
  obtain ⟨piece, hpiece, hu⟩ := hlast
  refine ⟨pieces ++ [piece], fun p hp => ?_, ?_⟩
  · rcases List.mem_append.mp hp with hp | hp
    · exact hpieces p hp
    · exact List.mem_singleton.mp hp ▸ hpiece
  · rw [hu, hmid, List.flatten_append, List.append_assoc]
    simp

theorem Filled.tried {v u : s.View} (h : s.Filled firm whole desired v u) : s.Tried firm whole desired v u := by
  obtain ⟨mid, htried, hgiven⟩ := h
  exact htried.snoc hgiven.underway

theorem EndsIn.tried {v u : s.View} {r : Except Error α} {known : List Token}
    (h : EndsIn (fun _ => s.Filled firm whole desired v) (s.Tried firm whole desired v) r known u) :
    s.Tried firm whole desired v u := by
  cases r with
  | ok x => exact Filled.tried h
  | error e => exact h

/-- One more attempt. -/
theorem Fillable.attempted (hs : s.Fillable b permits mild firm whole) (l : Locator B.Page) (i : Interrupt) (v : s.View) :
    Attempted K s.view b l (.fill desired) i (s.Tried firm whole desired v)
      (EndsIn (fun _ => s.Filled firm whole desired v) (s.Tried firm whole desired v)) (s.Tried firm whole desired v)
      (fun _ => s.Tried firm whole desired v) where
  halts := id
  attempt := fun {known mid} hmid => by
    refine guides_attempt (I := s.Tried firm whole desired v)
      (R := EndsIn (fun _ => s.Filled firm whole desired v) (s.Tried firm whole desired v)) hs.browser hs.kept nofun ?_ hmid
      (fun _ => id) EndsIn.tried ?_ (fun _ => hmid) (fun _ _ _ _ => id) id id
    · refine fun h known => ((hs.act l.options h known mid).relax fun u hu => hmid.snoc hu).mono fun r _ u hr => ?_
      cases r with
      | ok x => exact ⟨mid, hmid, hr⟩
      | error e => exact hmid.snoc hr
    · intro r known more u hr _
      cases r <;> exact hr
  again := fun hmid _ => hmid
  fails := fun hmid _ => hmid
  paused := fun hmid _ => hmid

theorem Fillable.perform (hs : s.Fillable b permits mild firm whole) (l : Locator B.Page) (signal : Option Token)
    (known : List Token) (v : s.View) :
    Guides K s.view (s.Tried firm whole desired v) (EndsIn (fun _ => s.Filled firm whole desired v) (s.Tried firm whole desired v))
      (l.perform b (.fill desired) signal) known v := by
  have hrun : Guides K s.view (s.Tried firm whole desired v)
      (EndsIn (fun _ => s.Filled firm whole desired v) (s.Tried firm whole desired v)) (l.run b (.fill desired) signal) known v :=
    guides_within fun i _ => (hs.attempted l i v).attempts _ (tried_refl v)
  exact hrun.andThen (fun _ _ _ hr => hr) fun _ _ _ hr => hr

/-- What was done to texts while an element was filled, attempt by attempt. -/
structure Fills (s : Sheet K) (firm whole : Prop) (desired : String) (v u : s.View)
    (outcome : Option (Except Error Unit)) (pieces : List (List (Touch s.Element))) : Prop where
  log : s.log u = s.log v ++ pieces.flatten
  /-- Every attempt goes along a course, as far as it gets. -/
  attempts : ∀ piece ∈ pieces, IsAttempt firm whole desired piece
  /-- An element whose text was read is left uncleared exactly when the desired text goes on where its own
  ends, unless the attempt has ended between reading and emptying. -/
  uncleared : ∀ piece ∈ pieces, ∀ e shown, .read e shown ∈ piece →
    (.clear e ∉ piece ↔ (∃ rest, rest ≠ "" ∧ desired = shown ++ rest) ∨ ¬ firm ∧ piece = [.read e shown])
  /-- And if it goes on, only what is missing is typed. -/
  missing : ∀ piece ∈ pieces, ∀ e shown, .read e shown ∈ piece →
    ∀ rest, rest ≠ "" → desired = shown ++ rest → piece <+: .read e shown :: keys e rest
  /-- When the operation succeeds, the last attempt went all the way, and the element holds the text. -/
  filled : outcome = some (.ok ()) →
    ∃ e course, pieces.getLast? = some course ∧ Course whole desired e course ∧ s.text u e = desired

theorem fills_of_attempts {v u : s.View} {outcome : Option (Except Error Unit)}
    {pieces : List (List (Touch s.Element))} (hpieces : ∀ piece ∈ pieces, IsAttempt firm whole desired piece)
    (hlog : s.log u = s.log v ++ pieces.flatten) (hfilled : outcome = some (.ok ()) →
      ∃ e course, pieces.getLast? = some course ∧ Course whole desired e course ∧ s.text u e = desired) :
    s.Fills firm whole desired v u outcome pieces where
  log := hlog
  attempts := hpieces
  uncleared := fun piece hp _ _ hread => (hpieces piece hp).uncleared_iff hread
  missing := fun piece hp _ _ hread _ hrest hsame => (hpieces piece hp).types_missing hread hrest hsame
  filled := hfilled

/-- However often an attempt fails, and wherever, each goes along the course that the text it read asks
for; and when the operation succeeds, the last has given an element the text. -/
theorem Fillable.fills_of_run (hs : s.Fillable b permits mild firm whole) (l : Locator B.Page) (signal : Option Token)
    {budget : Nat} {tl after : Timeline B.signature K.World} {outcome : Option (Except Error Unit)}
    (ht : tl.Tame permits mild)
    (hrun : tl.run K budget (l.perform b (.fill desired) signal).outcome = (outcome, after)) :
    ∃ pieces, s.Fills firm whole desired (s.view tl.world) (s.view after.world) outcome pieces := by
  have hcomes := Activity.run_abides hs.tames hs.kept ht (hs.asks l desired signal)
    (hs.perform l signal [] (s.view tl.world)) hrun
  have hunfilled (hfailed : outcome ≠ some (.ok ()))
      (htried : s.Tried firm whole desired (s.view tl.world) (s.view after.world)) :
      ∃ pieces, s.Fills firm whole desired (s.view tl.world) (s.view after.world) outcome pieces := by
    obtain ⟨pieces, hpieces, hlog⟩ := htried
    exact ⟨pieces, fills_of_attempts hpieces hlog fun hok => absurd hok hfailed⟩
  cases outcome with
  | none => exact hunfilled nofun hcomes
  | some r =>
    obtain ⟨known, hr⟩ := hcomes
    cases r with
    | error e => exact hunfilled nofun hr
    | ok x =>
      obtain ⟨mid, ⟨pieces, hpieces, hmid⟩, e, course, hcourse, hlog, htext⟩ := hr
      refine ⟨pieces ++ [course], fills_of_attempts (fun piece hp => ?_) ?_ fun _ => ?_⟩
      · rcases List.mem_append.mp hp with hp | hp
        · exact hpieces piece hp
        · exact List.mem_singleton.mp hp ▸ hcourse.isAttempt
      · rw [hlog, hmid, List.flatten_append, List.append_assoc]
        simp
      · exact ⟨e, course, List.getLast?_concat, hcourse, htext⟩

end Sheet

end Wayfind
