/-
What a history of registrations and removals leaves, and what it leaves alone.

A change takes names away and adds at most one behind the others (`custom_change`).  So the list is
read off the history: the registrations that were accepted and stand since, in their order
(`custom_ofHistory`).  Routing is then a lookup on that list (`resolve_ofHistory`), and what is
about one name leaves the entries of all others, their order and their scripts as they are, now and
after any further changes (`others_foldl`).
-/
import Wayfind.Proofs.Query.Registry

namespace Wayfind.Query.Registry

/-! ### What one change does -/

instance Change.decidableRemoves (name : String) : ∀ c : Change, Decidable (c.removes name)
  | .register _ _ _ => isFalse id
  | .unregister other => inferInstanceAs (Decidable (other = name))
  | .clear => isTrue trivial

/-- The entry that a change adds: that of a registration which is accepted. -/
def added (r : Registry) : Change → Option (String × Handler)
  | .register name one all =>
    match r.register name one all, Scripts.ofParts one all with
    | .ok _, .ok scripts => some (name, ⟨.custom name, scripts⟩)
    | _, _ => none
  | .unregister _ => none
  | .clear => none

/-- What a change takes away is gone, what it adds stands last, and the rest stays in its order. -/
theorem custom_change (r : Registry) (c : Change) :
    (r.change c).custom = (r.custom.filter fun e => ¬ c.removes e.1) ++ (r.added c).toList := by
  cases c with
  | register name one all =>
    have hkept : (r.custom.filter fun e => ¬ (Change.register name one all).removes e.1) =
        r.custom :=
      List.filter_eq_self.mpr fun e _ => decide_eq_true fun h => h
    rw [hkept]
    cases hok : r.register name one all with
    | error e => simp [change, added, hok]
    | ok after =>
      obtain ⟨-, -, -, scripts, hscripts, rfl⟩ := register_eq_ok hok
      simp [change, added, hok, hscripts]
  | unregister name =>
    rw [change, unregister, added, Option.toList_none, List.append_nil]
    refine List.filter_congr fun e _ => ?_
    by_cases h : name = e.1
    · simp [Change.removes, h]
    · simp [Change.removes, h, Ne.symm h]
  | clear => simp [change, clear, empty, added, Change.removes]

/-- The name a change is about; clearing is about all of them. -/
def Change.about : Change → Option String
  | .register name _ _ => some name
  | .unregister name => some name
  | .clear => none

theorem about_of_added {r : Registry} {c : Change} {e : String × Handler} (h : r.added c = some e) :
    c.about = some e.1 := by
  cases c with
  | register name one all =>
    simp only [added] at h
    split at h
    · cases h
      rfl
    · cases h
  | unregister name => cases h
  | clear => cases h

/-! ### The list, read off the history -/

/-- The entry that a place of a history added and that stands since: no later change takes its name
away. -/
def standing (history : List Change) (i : Nat) : Option (String × Handler) :=
  history[i]?.bind fun c => ((ofHistory (history.take i)).added c).filter fun e =>
    (history.drop (i + 1)).all fun later => ¬ later.removes e.1

/-- The entries that stand after a history, in the order in which they were registered. -/
def inOrder (history : List Change) : List (String × Handler) :=
  (List.range history.length).filterMap (standing history)

theorem standing_snoc_of_lt {history : List Change} (c : Change) {i : Nat}
    (h : i < history.length) :
    standing (history ++ [c]) i = (standing history i).filter fun e => ¬ c.removes e.1 := by
  rw [standing, standing, List.getElem?_append_left h, List.getElem?_eq_getElem h,
    List.take_append_of_le_length (Nat.le_of_lt h), List.drop_append_of_le_length h]
  simp only [Option.bind_some, Option.filter_filter, List.all_append, List.all_cons, List.all_nil,
    Bool.and_true]

theorem standing_snoc_length (history : List Change) (c : Change) :
    standing (history ++ [c]) history.length = (ofHistory history).added c := by
  have hbehind : (history ++ [c]).drop (history.length + 1) = [] := by simp
  rw [standing, hbehind, List.getElem?_concat_length, List.take_left, Option.bind_some]
  cases (ofHistory history).added c <;> rfl

/-- The entries after a history are the registrations that stand, in their order. -/
theorem custom_ofHistory (history : List Change) :
    (ofHistory history).custom = inOrder history := by
  induction history using List.reverseRecOn with
  | nil => rfl
  | append_singleton history c ih =>
    have hearlier : (List.range history.length).filterMap (standing (history ++ [c])) =
        (inOrder history).filter fun e => ¬ c.removes e.1 := by
      rw [inOrder, List.filter_filterMap]
      exact List.filterMap_congr fun i hi => standing_snoc_of_lt c (List.mem_range.mp hi)
    rw [ofHistory_snoc, custom_change, ih, ← hearlier, inOrder, List.length_append,
      List.length_singleton, List.range_succ, List.filterMap_append, List.filterMap_cons,
      List.filterMap_nil, standing_snoc_length]
    cases (ofHistory history).added c <;> rfl

/-- For every history, routing is a lookup on the text before the first separator: first among the
built-in names, then among the registered ones, in the order of their registration. -/
theorem resolve_ofHistory (history : List Change) (selector : String) :
    (ofHistory history).resolve selector =
      lookup ([("aria", .aria), ("pierce", .pierce), ("text", .text), ("xpath", .xpath)] ++
        inOrder history) selector := by
  have hnamed := fun e he => ((sound_ofHistory history).named e he).1
  rw [resolve_eq_lookup_of_named hnamed, entries, custom_ofHistory]
  rfl

/-! ### What is about another name -/

/-- The entries of all names but one. -/
def others (name : String) (r : Registry) : List (String × Handler) :=
  r.custom.filter fun e => e.1 != name

theorem mem_names_iff_others {r : Registry} {name other : String} (h : other ≠ name) :
    other ∈ r.names ↔ other ∈ (r.others name).map Prod.fst := by
  simp only [names, others, List.mem_map, List.mem_filter, bne_iff_ne]
  constructor
  · rintro ⟨e, he, rfl⟩
    exact ⟨e, ⟨he, h⟩, rfl⟩
  · rintro ⟨e, ⟨he, -⟩, rfl⟩
    exact ⟨e, he, rfl⟩

theorem others_change (r : Registry) (name : String) (c : Change) :
    (r.change c).others name = ((r.others name).filter fun e => ¬ c.removes e.1) ++
      (r.added c).toList.filter fun e => e.1 != name := by
  rw [others, custom_change, List.filter_append, others, List.filter_filter, List.filter_filter]
  simp only [Bool.and_comm]

/-- A change leaves the other names alone. -/
theorem others_change_of_about (r : Registry) {name : String} {c : Change}
    (h : c.about = some name) : (r.change c).others name = r.others name := by
  have hkept : ((r.others name).filter fun e => ¬ c.removes e.1) = r.others name := by
    refine List.filter_eq_self.mpr fun e he => decide_eq_true fun hremoves => ?_
    have hne : e.1 ≠ name := bne_iff_ne.mp (List.mem_filter.mp he).2
    cases c with
    | register other one all => exact hremoves
    | unregister other => exact hne (hremoves.symm.trans (Option.some.inj h))
    | clear => cases h
  have hadded : ((r.added c).toList.filter fun e => e.1 != name) = [] := by
    refine List.filter_eq_nil_iff.mpr fun e he => ?_
    have hsame := (about_of_added (Option.mem_toList.mp he)).symm.trans h
    simp [Option.some.inj hsame]
  rw [others_change, hkept, hadded, List.append_nil]

/-- Of a name, a registration asks no more than whether it is listed. -/
theorem added_congr {r s : Registry} {name : String} (h : name ∈ r.names ↔ name ∈ s.names)
    (one all : Option String) :
    r.added (.register name one all) = s.added (.register name one all) := by
  have hcontains : r.names.contains name = s.names.contains name := by
    rw [Bool.eq_iff_iff, List.contains_iff_mem, List.contains_iff_mem]
    exact h
  simp only [added, register, hcontains]
  cases Dialect.isReserved name <;> cases isName name <;> cases Scripts.ofParts one all <;>
    cases s.names.contains name <;> rfl

/-- What a change does to the other names is settled by these. -/
theorem others_change_congr {r s : Registry} {name : String} (h : r.others name = s.others name)
    (c : Change) : (r.change c).others name = (s.change c).others name := by
  have hadded : ((r.added c).toList.filter fun e => e.1 != name) =
      (s.added c).toList.filter fun e => e.1 != name := by
    cases c with
    | register other one all =>
      by_cases hother : other = name
      · -- Whether it is accepted or not, it is not about another name.
        have hnil : ∀ t : Registry, ((t.added (.register other one all)).toList.filter
            fun e => e.1 != name) = [] := fun t => by
          refine List.filter_eq_nil_iff.mpr fun e he => ?_
          have habout := about_of_added (Option.mem_toList.mp he)
          simp [← Option.some.inj habout, hother]
        rw [hnil, hnil]
      · rw [added_congr]
        rw [mem_names_iff_others hother, mem_names_iff_others hother, h]
    | unregister other => rfl
    | clear => rfl
  rw [others_change, others_change, h, hadded]

theorem others_foldl {r s : Registry} {name : String} (h : r.others name = s.others name)
    (later : List Change) : (later.foldl change r).others name = (later.foldl change s).others name := by
  induction later generalizing r s with
  | nil => exact h
  | cons c later ih => exact ih (others_change_congr h c)

/-- A selector that does not name an entry is not routed by it. -/
theorem lookup_filter (first entries : List (String × Handler)) {name selector : String}
    (h : ∀ parts, cut? selector.toList = some parts → sameName parts.1 name.toList = false) :
    lookup (first ++ entries.filter fun e => e.1 != name) selector =
      lookup (first ++ entries) selector := by
  unfold lookup
  cases hcut : cut? selector.toList with
  | none => rfl
  | some parts =>
    have hfind : (entries.filter fun e => e.1 != name).find?
        (fun e => sameName parts.1 e.1.toList) =
        entries.find? fun e => sameName parts.1 e.1.toList := by
      rw [List.find?_filter]
      congr 1
      funext e
      by_cases hname : e.1 = name
      · simp [hname, h parts hcut]
      · simp [hname]
    simp only [List.find?_append, hfind]

theorem resolve_congr_others {r s : Registry} (hr : ∀ e ∈ r.custom, isName e.1 = true)
    (hs : ∀ e ∈ s.custom, isName e.1 = true) {name : String} (h : r.others name = s.others name)
    {selector : String}
    (hother : ∀ parts, cut? selector.toList = some parts → sameName parts.1 name.toList = false) :
    r.resolve selector = s.resolve selector := by
  rw [resolve_eq_lookup_of_named hr, resolve_eq_lookup_of_named hs, entries, entries,
    ← lookup_filter _ r.custom hother, ← lookup_filter _ s.custom hother]
  exact congrArg (fun rest => lookup (_ ++ rest) selector) h

/-! ### The laws of histories -/

/-- What holds of a registry after any history. -/
structure Lawful (history : List Change) : Prop where
  nodup : (ofHistory history).names.Nodup
  letters : ∀ name ∈ (ofHistory history).names, name ≠ "" ∧ ∀ d ∈ name.toList, d.isAlpha = true
  unreserved : ∀ name ∈ (ofHistory history).names, ∀ reserved ∈ ["aria", "pierce", "text", "xpath"],
    sameName name.toList reserved.toList = false
  ordered : (ofHistory history).names = (inOrder history).map Prod.fst
  /-- Without a registration that failed the registry were the same: the same names, and the same
  handler for every selector. -/
  failed : ∀ earlier name one all e later,
    history = earlier ++ .register name one all :: later →
      (ofHistory earlier).register name one all = .error e →
        ofHistory history = ofHistory (earlier ++ later)
  /-- Without a change about one name, the entries of the others were the same, in the same order
  and with the same scripts; so is what any selector resolves to that does not start with it. -/
  apart : ∀ earlier c later name, history = earlier ++ c :: later → c.about = some name →
    (ofHistory history).others name = (ofHistory (earlier ++ later)).others name ∧
      ∀ selector : String,
        (∀ parts, cut? selector.toList = some parts → sameName parts.1 name.toList = false) →
          (ofHistory history).resolve selector = (ofHistory (earlier ++ later)).resolve selector

theorem ofHistory_append (earlier later : List Change) :
    ofHistory (earlier ++ later) = later.foldl change (ofHistory earlier) :=
  List.foldl_append

/-- Every history keeps the laws. -/
theorem lawful_ofHistory (history : List Change) : Lawful history where
  nodup := (sound_ofHistory history).nodup
  letters name hname := by
    obtain ⟨e, he, rfl⟩ := List.mem_map.mp hname
    have hletters := ((sound_ofHistory history).named e he).1
    refine ⟨?_, isAlpha_of_isName hletters⟩
    rintro hempty
    rw [hempty] at hletters
    cases hletters
  unreserved name hname reserved hreserved := by
    obtain ⟨e, he, rfl⟩ := List.mem_map.mp hname
    have hbuiltin := sameName_builtin ((sound_ofHistory history).named e he).2
    simp only [List.mem_cons, List.not_mem_nil, or_false] at hreserved
    rcases hreserved with rfl | rfl | rfl | rfl
    · exact hbuiltin .aria (by simp [builtinHandlers])
    · exact hbuiltin .pierce (by simp [builtinHandlers])
    · exact hbuiltin .text (by simp [builtinHandlers])
    · exact hbuiltin .xpath (by simp [builtinHandlers])
  ordered := congrArg (List.map Prod.fst) (custom_ofHistory history)
  failed earlier name one all e later hhistory hfailed := by
    rw [hhistory, ofHistory_append, ofHistory_append, List.foldl_cons, change, hfailed]
  apart earlier c later name hhistory habout := by
    have hothers : (ofHistory history).others name = (ofHistory (earlier ++ later)).others name := by
      rw [hhistory, ofHistory_append, ofHistory_append, List.foldl_cons]
      exact others_foldl (others_change_of_about _ habout) later
    refine ⟨hothers, fun selector hselector => ?_⟩
    exact resolve_congr_others (fun e he => ((sound_ofHistory _).named e he).1)
      (fun e he => ((sound_ofHistory _).named e he).1) hothers hselector

end Wayfind.Query.Registry
