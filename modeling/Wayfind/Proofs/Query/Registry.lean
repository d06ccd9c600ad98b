/-
Which handler the name of a dialect reaches.

A registration compares names as they are spelled, a selector without regard to the case of
letters.  So the text behind a listed name always gets through (`resolve_of_listed`), but to
the handler of the first listed name that is the same up to case; a name that differs from an
earlier one only in case is listed and never reached (`resolve_shadowed`).
-/
import Mathlib.Data.List.Induction
import Mathlib.Data.List.Nodup
import Wayfind.Proofs.Query.Lookup

namespace Wayfind.Query

namespace Registry

/-- A name that is not reserved differs from every built-in one in more than case. -/
theorem sameName_builtin {name : String} (h : Dialect.isReserved name = false) :
    ∀ b ∈ builtinHandlers, sameName name.toList b.dialect.name.toList = false := by
  intro b hb
  refine Bool.eq_false_iff.mpr fun hsame => Bool.eq_false_iff.mp h ?_
  have hlower := map_toLower_of_sameName hsame
  simp only [builtinHandlers, List.mem_cons, List.not_mem_nil, or_false] at hb
  rcases hb with rfl | rfl | rfl | rfl <;>
    · simp only [Dialect.isReserved, Dialect.ofName, Dialect.builtins, sameName, hlower]
      rfl

/-! ### Histories -/

/-- A change of a registry. -/
inductive Change where
  | register (name : String) (one all : Option String)
  | unregister (name : String)
  | clear

/-- The registry after a change; a registration that fails changes nothing. -/
def change (r : Registry) : Change → Registry
  | .register name one all =>
    match r.register name one all with
    | .ok after => after
    | .error _ => r
  | .unregister name => r.unregister name
  | .clear => r.clear

/-- A new registry after changes, one after another. -/
def ofHistory (history : List Change) : Registry := history.foldl change empty

/-- The change takes a name away. -/
def Change.removes (name : String) : Change → Prop
  | .register _ _ _ => False
  | .unregister other => other = name
  | .clear => True

/-- The handler that was registered under a name: its registration was accepted, and the name was not
taken away since. -/
def Registered (history : List Change) (name : String) (h : Handler) : Prop :=
  ∃ earlier one all later scripts, history = earlier ++ .register name one all :: later ∧
    ((ofHistory earlier).register name one all).isOk = true ∧
    Scripts.ofParts one all = .ok scripts ∧ h = ⟨.custom name, scripts⟩ ∧
    ∀ c ∈ later, ¬ c.removes name

theorem Registered.snoc {history : List Change} {name : String} {h : Handler}
    (hr : Registered history name h) {c : Change} (hc : ¬ c.removes name) :
    Registered (history ++ [c]) name h := by
  obtain ⟨earlier, one, all, later, scripts, rfl, hok, hscripts, hh, hlater⟩ := hr
  refine ⟨earlier, one, all, later ++ [c], scripts, by simp, hok, hscripts, hh, ?_⟩
  intro d hd
  rcases List.mem_append.mp hd with hd | hd
  · exact hlater d hd
  · rwa [List.mem_singleton.mp hd]

theorem Registered.dialect {history : List Change} {name : String} {h : Handler}
    (hr : Registered history name h) : h.dialect = .custom name := by
  obtain ⟨-, -, -, -, -, -, -, -, rfl, -⟩ := hr
  rfl

/-- What it takes to register a name, and what comes of it. -/
theorem register_eq_ok {r after : Registry} {name : String} {one all : Option String}
    (h : r.register name one all = .ok after) :
    Dialect.isReserved name = false ∧ isName name = true ∧ name ∉ r.names ∧
      ∃ scripts, Scripts.ofParts one all = .ok scripts ∧
        after = ⟨r.custom ++ [(name, ⟨.custom name, scripts⟩)]⟩ := by
  unfold register at h
  split at h
  · cases h
  · rename_i hreserved
    split at h
    · cases h
    · rename_i hname
      cases hscripts : Scripts.ofParts one all with
      | error e => simp [hscripts, bind, Except.bind] at h
      | ok scripts =>
        simp only [hscripts, bind, Except.bind] at h
        split at h
        · cases h
        · rename_i hnew
          exact ⟨Bool.eq_false_iff.mpr hreserved, by simpa using hname, by simpa using hnew,
            scripts, rfl, (Except.ok.inj h).symm⟩

/-- What a history leaves in the registry. -/
structure Sound (history : List Change) : Prop where
  nodup : (ofHistory history).names.Nodup
  /-- A listed name is made of letters, and no built-in dialect has it. -/
  named : ∀ e ∈ (ofHistory history).custom, isName e.1 = true ∧ Dialect.isReserved e.1 = false
  registered : ∀ e ∈ (ofHistory history).custom, Registered history e.1 e.2

theorem ofHistory_snoc (history : List Change) (c : Change) :
    ofHistory (history ++ [c]) = (ofHistory history).change c := by
  simp [ofHistory]

/-- Entries that stay while names are taken away. -/
theorem Sound.sublist {history : List Change} (hs : Sound history) {c : Change}
    (hsub : (ofHistory (history ++ [c])).custom.Sublist (ofHistory history).custom)
    (hkept : ∀ e ∈ (ofHistory (history ++ [c])).custom, ¬ c.removes e.1) :
    Sound (history ++ [c]) where
  nodup := hs.nodup.sublist (hsub.map Prod.fst)
  named e he := hs.named e (hsub.subset he)
  registered e he := (hs.registered e (hsub.subset he)).snoc (hkept e he)

theorem Sound.change {history : List Change} (hs : Sound history) (c : Change) :
    Sound (history ++ [c]) := by
  have hsnoc := ofHistory_snoc history c
  cases c with
  | register name one all =>
    cases hok : (ofHistory history).register name one all with
    | error e =>
      have hsame : ofHistory (history ++ [.register name one all]) = ofHistory history := by
        rw [hsnoc, Registry.change, hok]
      exact hs.sublist (hsame ▸ List.Sublist.refl _) fun e he h => h
    | ok after =>
      obtain ⟨hreserved, hname, hnew, scripts, hscripts, rfl⟩ := register_eq_ok hok
      have hafter : (ofHistory (history ++ [.register name one all])).custom =
          (ofHistory history).custom ++ [(name, ⟨.custom name, scripts⟩)] := by
        rw [hsnoc, Registry.change, hok]
      refine ⟨?_, ?_, ?_⟩
      · rw [names, hafter, List.map_append, List.map_singleton]
        rw [← List.concat_eq_append]
        exact hs.nodup.concat hnew
      · intro e he
        rw [hafter] at he
        rcases List.mem_append.mp he with he | he
        · exact hs.named e he
        · rw [List.mem_singleton.mp he]
          exact ⟨hname, hreserved⟩
      · intro e he
        rw [hafter] at he
        rcases List.mem_append.mp he with he | he
        · exact (hs.registered e he).snoc fun h => h
        · rw [List.mem_singleton.mp he]
          exact ⟨history, one, all, [], scripts, rfl, by rw [hok]; rfl, hscripts, rfl, nofun⟩
  | unregister name =>
    have hafter : (ofHistory (history ++ [.unregister name])).custom =
        (ofHistory history).custom.filter fun e => e.1 != name := by
      rw [hsnoc]
      rfl
    refine hs.sublist (hafter ▸ List.filter_sublist) fun e he h => ?_
    rw [hafter, List.mem_filter, bne_iff_ne] at he
    exact he.2 h.symm
  | clear =>
    have hafter : (ofHistory (history ++ [.clear])).custom = [] := by
      rw [hsnoc]
      rfl
    refine hs.sublist (hafter ▸ List.nil_sublist _) fun e he _ => ?_
    rw [hafter] at he
    exact absurd he List.not_mem_nil

theorem sound_ofHistory (history : List Change) : Sound history := by
  induction history using List.reverseRecOn with
  | nil => exact ⟨List.nodup_nil, nofun, nofun⟩
  | append_singleton history c ih => exact ih.change c

/-! ### Looking a name up -/

/-- A name that no built-in dialect has leads to the first listed name that is the same up to case. -/
theorem resolve_name {r : Registry} (hnamed : ∀ e ∈ r.custom, isName e.1 = true) {name : String}
    (hname : isName name = true) (hreserved : Dialect.isReserved name = false) {c : Char}
    (hc : isSeparator c = true) (text : String) :
    r.resolve (name ++ String.singleton c ++ text) =
      ((r.custom.find? fun e => sameName name.toList e.1.toList).map fun e => (e.2, text)).getD
        (Handler.css, name ++ String.singleton c ++ text) := by
  have hcut : cut? (name ++ String.singleton c ++ text).toList = some (name.toList, text.toList) := by
    have hselector :
        (name ++ String.singleton c ++ text).toList = name.toList ++ c :: text.toList := by simp
    rw [hselector]
    exact cut?_append (fun d hd => isSeparator_of_isAlpha (isAlpha_of_isName hname d hd)) hc _
  have hbuiltin : (builtinHandlers.map fun h => (h.dialect.name, h)).find?
      (fun e => sameName name.toList e.1.toList) = none := by
    rw [List.find?_eq_none]
    intro e he
    obtain ⟨b, hb, rfl⟩ := List.mem_map.mp he
    exact Bool.eq_false_iff.mp (sameName_builtin hreserved b hb)
  rw [resolve_eq_lookup_of_named hnamed, lookup, hcut]
  simp only [entries, List.find?_append, hbuiltin, Option.none_or]
  cases r.custom.find? fun e => sameName name.toList e.1.toList <;> simp

/-- What is listed before a name. -/
def before (r : Registry) (name : String) : List (String × Handler) :=
  r.custom.takeWhile fun e => e.1 != name

theorem custom_split {r : Registry} (hnodup : r.names.Nodup) {name : String} (h : name ∈ r.names) :
    ∃ handler after, r.custom = r.before name ++ (name, handler) :: after := by
  obtain ⟨e, he, rfl⟩ := List.mem_map.mp h
  obtain ⟨first, after, hsplit⟩ := List.mem_iff_append.mp he
  rw [names, hsplit, List.map_append, List.map_cons] at hnodup
  have hother : ∀ e' ∈ first, (e'.1 != e.1) = true := by
    intro e' he'
    rw [bne_iff_ne]
    exact (List.nodup_append.mp hnodup).2.2 e'.1 (List.mem_map_of_mem he') e.1 List.mem_cons_self
  have hbefore : r.before e.1 = first := by
    rw [before, hsplit, List.takeWhile_append_of_pos hother]
    simp
  exact ⟨e.2, after, by rw [hbefore, hsplit]⟩

/-- Whatever came before, a listed name gets the text behind it through: to the first listed name
that is the same up to case.  That is its own handler just when no such name stands before it. -/
theorem resolve_of_listed (history : List Change) {name : String}
    (hlisted : name ∈ (ofHistory history).names) {c : Char} (hc : isSeparator c = true)
    (text : String) :
    ∃ h, (name, h) ∈ (ofHistory history).custom ∧ Registered history name h ∧
      (ofHistory history).resolve (name ++ String.singleton c ++ text) =
        (((((ofHistory history).before name).find? fun e =>
          sameName name.toList e.1.toList).map Prod.snd).getD h, text) ∧
      ((ofHistory history).resolve (name ++ String.singleton c ++ text) = (h, text) ↔
        ∀ e ∈ (ofHistory history).before name, sameName name.toList e.1.toList = false) := by
  have hs := sound_ofHistory history
  obtain ⟨h, after, hsplit⟩ := custom_split hs.nodup hlisted
  set earlier := (ofHistory history).before name
  have hmem : (name, h) ∈ (ofHistory history).custom := by
    rw [hsplit]
    exact List.mem_append_right _ List.mem_cons_self
  have hself : sameName name.toList name.toList = true := by simp [sameName]
  have hresolve : (ofHistory history).resolve (name ++ String.singleton c ++ text) =
      (((earlier.find? fun e => sameName name.toList e.1.toList).map Prod.snd).getD h, text) := by
    rw [resolve_name (fun e he => (hs.named e he).1) (hs.named _ hmem).1 (hs.named _ hmem).2 hc,
      hsplit, List.find?_append, List.find?_cons, hself]
    cases earlier.find? fun e => sameName name.toList e.1.toList <;> rfl
  refine ⟨h, hmem, hs.registered _ hmem, hresolve, ?_⟩
  rw [hresolve, Prod.mk.injEq]
  constructor
  · rintro ⟨hown, -⟩
    cases hfind : earlier.find? fun e => sameName name.toList e.1.toList with
    | none => simpa using hfind
    | some first =>
      -- Handlers carry the names they are registered under, and these are distinct.
      have hfirst := List.mem_of_find?_eq_some hfind
      rw [hfind] at hown
      have hearlier : first ∈ (ofHistory history).custom := by
        rw [hsplit]
        exact List.mem_append_left _ hfirst
      have hsame : name = first.1 := by
        have hdialect := (hs.registered first hearlier).dialect
        rw [show first.2 = h from hown, (hs.registered _ hmem).dialect] at hdialect
        exact Dialect.custom.inj hdialect
      have hne : (first.1 != name) = true :=
        List.all_eq_true.mp List.all_takeWhile first hfirst
      exact absurd hsame.symm (bne_iff_ne.mp hne)
  · intro hnone
    have hfind : (earlier.find? fun e => sameName name.toList e.1.toList) = none := by
      simpa using hnone
    rw [hfind]
    exact ⟨rfl, rfl⟩

/-- Two names that differ in case, and a third that is taken away. -/
def casedHistory : List Change := [
  .register "foo" (some "one") none, .register "FOO" none (some "all"),
  .register "bar" (some "one") none, .unregister "bar"]

/-- The first of the two names reaches its own handler. -/
theorem resolve_first_of_cased :
    "foo" ∈ (ofHistory casedHistory).names ∧ isSeparator '/' = true ∧
      ∃ h, Registered casedHistory "foo" h ∧
        (ofHistory casedHistory).resolve ("foo" ++ String.singleton '/' ++ "a=b") = (h, "a=b") := by
  have hlisted : "foo" ∈ (ofHistory casedHistory).names := by decide
  obtain ⟨h, -, hregistered, -, hreached⟩ :=
    resolve_of_listed casedHistory hlisted (c := '/') rfl "a=b"
  exact ⟨hlisted, rfl, h, hregistered, hreached.mpr (by decide)⟩

/-- The second is listed, and leads to the handler of the first. -/
theorem resolve_shadowed :
    "FOO" ∈ (ofHistory casedHistory).names ∧
      Registered casedHistory "FOO" ⟨.custom "FOO", ⟨Scripts.oneFromAll "all", "all"⟩⟩ ∧
      (ofHistory casedHistory).resolve ("FOO" ++ String.singleton '=' ++ "a") =
        (⟨.custom "foo", ⟨"one", Scripts.allFromOne "one"⟩⟩, "a") := by
  refine ⟨by decide, ?_, by decide +kernel⟩
  exact ⟨[.register "foo" (some "one") none], none, some "all",
    [.register "bar" (some "one") none, .unregister "bar"], ⟨Scripts.oneFromAll "all", "all"⟩, rfl,
    by decide, rfl, rfl, by simp [Change.removes]⟩

end Registry

end Wayfind.Query
