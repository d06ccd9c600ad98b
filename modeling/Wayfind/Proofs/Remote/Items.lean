/-
Which properties of an array are listed as its items, and in which order.

A listing of an array gives its properties in any order and under any names.  Those that others see and
that have a value are listed when their names spell a number, with a plus sign or without and after any
zeros (`index?_eq_some_iff`), in the order of these numbers and else in that of the reply
(`ranks_ranked`).  An item of an array has one name, the decimal form of its place.  So what is listed
are the items, in strictly increasing order, exactly when no other property spells a number and no two
spell the same one (`regular_of_lists`, `lists_of_regular`).
-/
import Wayfind.Proofs.Remote.Concluding

namespace Wayfind.Remote

open Protocol (RemoteObject Property)

variable {P : Peer} {patience limit n m : Nat} {name : String} {properties : List Property}
  {made : List Handle}

/-! ### Names of numbers -/

/-- The name spells a number that fits a word: its decimal form, after a plus sign or none and after any
zeros. -/
def Spelled (name : String) (n : Nat) : Prop :=
  n < UInt64.size ∧ ∃ sign ∈ ["", "+"], ∃ zeros : Nat,
    name = sign ++ String.ofList (List.replicate zeros '0') ++ toString n

/-- The name is the decimal form of a number below a limit, and so the name of a place in an array. -/
def Canonical (limit : Nat) (name : String) (n : Nat) : Prop := n < limit ∧ name = toString n

theorem Canonical.spelled (hlimit : limit ≤ UInt64.size) (h : Canonical limit name n) : Spelled name n :=
  ⟨Nat.lt_of_lt_of_le h.1 hlimit, "", List.mem_cons_self, 0, by simpa using h.2⟩

theorem exists_digitChar {c : Char} (h : c.isDigit = true) :
    c.toNat - '0'.toNat < 10 ∧ (c.toNat - '0'.toNat).digitChar = c := by
  obtain ⟨hlow, hhigh⟩ := Char.isDigit_iff_toNat.mp h
  have hlow : 48 ≤ c.toNat := hlow
  have hhigh : c.toNat ≤ 57 := hhigh
  have hlt : c.toNat - 48 < 10 := by omega
  refine ⟨hlt, Char.toNat_inj.mp ?_⟩
  have hvalue : (c.toNat - 48).digitChar.toNat = 48 + (c.toNat - 48) := Nat.toNat_digitChar_of_lt_ten hlt
  exact hvalue.trans (by omega)

/-- Digits are the decimal form of their number, after zeros. -/
theorem exists_zeros {digits : List Char} (hsome : digits ≠ []) (hdigits : ∀ c ∈ digits, c.isDigit = true) :
    ∃ zeros, digits = List.replicate zeros '0' ++ Nat.toDigits 10 (Nat.ofDigitChars 10 digits 0) := by
  induction digits using List.reverseRecOn with
  | nil => exact absurd rfl hsome
  | append_singleton front c ih =>
    obtain ⟨hlt, hc⟩ := exists_digitChar (hdigits c (by simp))
    generalize hd : c.toNat - '0'.toNat = d at hlt hc
    have hlast : Nat.toDigits 10 d = [c] := by rw [Nat.toDigits_of_lt_base hlt, hc]
    have hvalue : Nat.ofDigitChars 10 (front ++ [c]) 0 = 10 * Nat.ofDigitChars 10 front 0 + d := by
      rw [Nat.ofDigitChars_append, Nat.ofDigitChars_cons, hd, Nat.ofDigitChars_nil]
    rw [hvalue]
    by_cases hfront : front = []
    · subst hfront
      exact ⟨0, by rw [Nat.ofDigitChars_nil, Nat.mul_zero, Nat.zero_add, hlast]; rfl⟩
    obtain ⟨zeros, hzeros⟩ := ih hfront fun c hc => hdigits c (List.mem_append_left _ hc)
    rcases Nat.eq_zero_or_pos (Nat.ofDigitChars 10 front 0) with hzero | hpos
    · -- The digits before are all zeros; the last of them is none of the decimal form any more.
      rw [hzero, Nat.toDigits_zero, ← List.replicate_succ'] at hzeros
      exact ⟨zeros + 1, by rw [hzero, Nat.mul_zero, Nat.zero_add, hlast, ← hzeros]⟩
    · refine ⟨zeros, ?_⟩
      rw [← Nat.toDigits_append_toDigits (by decide) hpos hlt, hlast, ← List.append_assoc, ← hzeros]

/-- The digits behind a plus sign, or all of the name. -/
def unsigned (name : String) : List Char :=
  match name.toList with
  | '+' :: rest => rest
  | all => all

theorem index?_eq_some : Handle.index? name = some n ↔
    unsigned name ≠ [] ∧ (∀ c ∈ unsigned name, c.isDigit = true) ∧
      Nat.ofDigitChars 10 (unsigned name) 0 < UInt64.size ∧ Nat.ofDigitChars 10 (unsigned name) 0 = n := by
  have hcond : ((unsigned name).isEmpty || !(unsigned name).all Char.isDigit) = true ↔
      ¬ (unsigned name ≠ [] ∧ ∀ c ∈ unsigned name, c.isDigit = true) := by
    rw [not_and_or]
    simp
  show (if ((unsigned name).isEmpty || !(unsigned name).all Char.isDigit) = true then none
    else if Nat.ofDigitChars 10 (unsigned name) 0 < UInt64.size then
      some (Nat.ofDigitChars 10 (unsigned name) 0)
    else none) = some n ↔ _
  rw [Option.ite_none_left_eq_some, Option.ite_none_right_eq_some, hcond, not_not, Option.some.injEq, and_assoc]

theorem exists_sign (name : String) : ∃ sign ∈ ["", "+"], name = sign ++ String.ofList (unsigned name) := by
  unfold unsigned
  split
  · rename_i rest hname
    exact ⟨"+", by simp, String.toList_inj.mp (by simpa using hname)⟩
  · exact ⟨"", by simp, by simp⟩

theorem unsigned_of_sign {sign : String} (hsign : sign ∈ ["", "+"]) {digits : List Char}
    (hdigits : ∀ c ∈ digits, c.isDigit = true) : unsigned (sign ++ String.ofList digits) = digits := by
  have hplus : ∀ rest, digits ≠ '+' :: rest := by
    rintro rest rfl
    exact absurd (hdigits '+' List.mem_cons_self) (by decide)
  simp only [List.mem_cons, List.not_mem_nil, or_false] at hsign
  unfold unsigned
  rcases hsign with rfl | rfl
  · have hlist : ("" ++ String.ofList digits).toList = digits := by simp
    rw [hlist]
    split
    · rename_i rest
      exact absurd rfl (hplus rest)
    · rfl
  · have hlist : ("+" ++ String.ofList digits).toList = '+' :: digits := by simp
    rw [hlist]
    rfl

theorem spelled_of_index? (h : Handle.index? name = some n) : Spelled name n := by
  obtain ⟨hsome, hdigits, hfits, rfl⟩ := index?_eq_some.mp h
  obtain ⟨sign, hsign, hname⟩ := exists_sign name
  obtain ⟨zeros, hzeros⟩ := exists_zeros hsome hdigits
  refine ⟨hfits, sign, hsign, zeros, ?_⟩
  rw [Nat.toString_eq_ofList_toDigits, String.append_assoc, ← String.ofList_append, ← hzeros]
  exact hname

theorem Spelled.index? (h : Spelled name n) : Handle.index? name = some n := by
  obtain ⟨hfits, sign, hsign, zeros, rfl⟩ := h
  have hdigits : ∀ c ∈ List.replicate zeros '0' ++ Nat.toDigits 10 n, c.isDigit = true := by
    intro c hc
    rcases List.mem_append.mp hc with hc | hc
    · rw [List.eq_of_mem_replicate hc]
      rfl
    · exact Nat.isDigit_of_mem_toDigits (by decide) (by decide) hc
  have hsome : List.replicate zeros '0' ++ Nat.toDigits 10 n ≠ [] := fun h =>
    Nat.toDigits_ne_nil (List.append_eq_nil_iff.mp h).2
  have hvalue : Nat.ofDigitChars 10 (List.replicate zeros '0' ++ Nat.toDigits 10 n) 0 = n := by
    rw [Nat.ofDigitChars_append, Nat.ofDigitChars_replicate_zero, Nat.mul_zero,
      Nat.ofDigitChars_ten_toDigits]
  rw [index?_eq_some, Nat.toString_eq_ofList_toDigits, String.append_assoc, ← String.ofList_append,
    unsigned_of_sign hsign hdigits]
  exact ⟨hsome, hdigits, hvalue.symm ▸ hfits, hvalue⟩

/-- What is read from a name is the number that it spells. -/
theorem index?_eq_some_iff : Handle.index? name = some n ↔ Spelled name n :=
  ⟨spelled_of_index?, Spelled.index?⟩

theorem Spelled.unique (h : Spelled name n) (h' : Spelled name m) : n = m :=
  Option.some.inj (h.index?.symm.trans h'.index?)

/-! ### Listings -/

/-- Others see the property, it has a value, and its name is a name of the number. -/
structure Bears (names : String → Nat → Prop) (p : Property) (n : Nat) : Prop where
  enumerable : p.enumerable = true
  valued : p.value.isSome = true
  named : names p.name n

theorem Bears.imp {names others : String → Nat → Prop} {p : Property}
    (h : Bears names p n) (hnamed : names p.name n → others p.name n) : Bears others p n :=
  ⟨h.enumerable, h.valued, hnamed h.named⟩

/-- The entries are the properties that bear a number, each under its number: in an order of the numbers,
and those of one number in the order of the reply. -/
structure Ranks (R : Nat → Nat → Prop) (names : String → Nat → Prop) (properties : List Property)
    (entries : List (Nat × Property)) : Prop where
  bears : ∀ e ∈ entries, Bears names e.2 e.1
  all : ∃ rest, (entries.map Prod.snd ++ rest).Perm properties ∧ ∀ p ∈ rest, ∀ n, ¬ Bears names p n
  ordered : entries.Pairwise fun e e' => R e.1 e'.1
  stable : ∀ n, ((entries.filter fun e => e.1 = n).map Prod.snd).Sublist properties

/-- The handles wrap the values of the properties that bear a number, in such an order. -/
def Lists (R : Nat → Nat → Prop) (names : String → Nat → Prop) (properties : List Property)
    (made : List Handle) : Prop :=
  ∃ entries, Ranks R names properties entries ∧
    List.Forall₂ (fun e h => e.2.value = some h.remote) entries made

/-- Two properties bear no number together. -/
def Apart (p q : Property) : Prop := ∀ n, Bears Spelled p n → ¬ Bears Spelled q n

theorem Apart.symm {p q : Property} (h : Apart p q) : Apart q p := fun n hq hp => h n hp hq

/-- No property spells a number but items, each the place it has, and no two have the same. -/
structure Regular (limit : Nat) (properties : List Property) : Prop where
  canonical : ∀ p ∈ properties, ∀ n, Bears Spelled p n → Canonical limit p.name n
  distinct : properties.Pairwise Apart

namespace Ranks

variable {R : Nat → Nat → Prop} {names : String → Nat → Prop} {entries : List (Nat × Property)}

theorem mem (h : Ranks R names properties entries) {e : Nat × Property} (he : e ∈ entries) :
    e.2 ∈ properties := by
  obtain ⟨rest, hperm, -⟩ := h.all
  exact hperm.mem_iff.mp (List.mem_append_left _ (List.mem_map_of_mem he))

/-- As many entries are there as properties that bear a number. -/
theorem length_filter [DecidablePred fun p => ∃ n, Bears names p n] (h : Ranks R names properties entries) :
    (properties.filter fun p => ∃ n, Bears names p n).length = entries.length := by
  obtain ⟨rest, hperm, hrest⟩ := h.all
  have hentries : (entries.map Prod.snd).filter (fun p => ∃ n, Bears names p n) = entries.map Prod.snd := by
    refine List.filter_eq_self.mpr fun p hp => decide_eq_true ?_
    obtain ⟨e, he, rfl⟩ := List.mem_map.mp hp
    exact ⟨e.1, h.bears e he⟩
  have hothers : rest.filter (fun p => ∃ n, Bears names p n) = [] :=
    List.filter_eq_nil_iff.mpr fun p hp hbears =>
      (of_decide_eq_true hbears).elim fun n hn => hrest p hp n hn
  rw [← (hperm.filter _).length_eq, List.filter_append, hentries, hothers, List.append_nil, List.length_map]

end Ranks

/-- As many items as numbers are listed, so what spells a number is an item. -/
theorem canonical_of_lists (hlimit : limit ≤ UInt64.size) (h : Lists (· ≤ ·) Spelled properties made)
    (hitems : Lists (· < ·) (Canonical limit) properties made) :
    ∀ p ∈ properties, ∀ n, Bears Spelled p n → Bears (Canonical limit) p n := by
  classical
  obtain ⟨entries, hranks, hvalues⟩ := h
  obtain ⟨items, hitems, hitemValues⟩ := hitems
  have hsame : (properties.filter fun p => ∃ n, Bears (Canonical limit) p n) =
      properties.filter fun p => ∃ n, Bears Spelled p n := by
    refine List.Sublist.eq_of_length (List.monotone_filter_right _ fun p hp => ?_) ?_
    · obtain ⟨n, hn⟩ := of_decide_eq_true hp
      exact decide_eq_true ⟨n, hn.imp (Canonical.spelled hlimit)⟩
    · rw [hitems.length_filter, hranks.length_filter, hvalues.length_eq, hitemValues.length_eq]
  intro p hp n hn
  have hmem : p ∈ properties.filter fun p => ∃ n, Bears Spelled p n :=
    List.mem_filter.mpr ⟨hp, decide_eq_true ⟨n, hn⟩⟩
  rw [← hsame] at hmem
  obtain ⟨m, hm⟩ := of_decide_eq_true (List.mem_filter.mp hmem).2
  obtain rfl := hn.named.unique (hm.named.spelled hlimit)
  exact hm

/-- Items listed in strictly increasing order are all that spells a number, and no two are in one place:
no other properties are listed, and all that spell a number are. -/
theorem regular_of_lists (hlimit : limit ≤ UInt64.size) (h : Lists (· ≤ ·) Spelled properties made)
    (hitems : Lists (· < ·) (Canonical limit) properties made) : Regular limit properties := by
  have hcanonical := canonical_of_lists hlimit h hitems
  refine ⟨fun p hp n hn => (hcanonical p hp n hn).named, ?_⟩
  obtain ⟨items, hitems, -⟩ := hitems
  obtain ⟨rest, hperm, hrest⟩ := hitems.all
  have hnone : ∀ q ∈ rest, ∀ n, ¬ Bears Spelled q n := fun q hq n hn =>
    hrest q hq n (hcanonical q (hperm.mem_iff.mp (List.mem_append_right _ hq)) n hn)
  refine (hperm.pairwise_iff Apart.symm).mp (List.pairwise_append.mpr ⟨?_, ?_, ?_⟩)
  · refine List.pairwise_map.mpr (hitems.ordered.imp_of_mem fun {e e'} he he' hlt n hn hn' => ?_)
    have hfirst := ((hitems.bears e he).named.spelled hlimit).unique hn.named
    have hsecond := ((hitems.bears e' he').named.spelled hlimit).unique hn'.named
    omega
  · exact List.pairwise_of_forall_mem_list fun p _ q hq n _ => hnone q hq n
  · exact fun p _ q hq n _ => hnone q hq n

/-- What spells a number is listed as the items are, if there is nothing else of that kind and no place is
taken twice. -/
theorem lists_of_regular (hlimit : limit ≤ UInt64.size) (h : Lists (· ≤ ·) Spelled properties made)
    (hregular : Regular limit properties) : Lists (· < ·) (Canonical limit) properties made := by
  obtain ⟨entries, hranks, hvalues⟩ := h
  refine ⟨entries, ⟨?_, ?_, ?_, hranks.stable⟩, hvalues⟩
  · intro e he
    have hbears := hranks.bears e he
    exact hbears.imp fun _ => hregular.canonical e.2 (hranks.mem he) e.1 hbears
  · obtain ⟨rest, hperm, hrest⟩ := hranks.all
    exact ⟨rest, hperm, fun p hp n hn => hrest p hp n (hn.imp (Canonical.spelled hlimit))⟩
  · obtain ⟨rest, hperm, -⟩ := hranks.all
    have hdistinct := List.pairwise_map.mp
      (List.pairwise_append.mp ((hperm.pairwise_iff Apart.symm).mpr hregular.distinct)).1
    refine (hranks.ordered.and hdistinct).imp_of_mem fun {e e'} he he' hboth => ?_
    refine Nat.lt_of_le_of_ne hboth.1 fun hsame => ?_
    exact hboth.2 e'.1 (hsame ▸ hranks.bears e he) (hranks.bears e' he')

/-! ### What is listed -/

/-- The number that a property bears, if it bears one. -/
def borne? (p : Property) : Option Nat :=
  if p.enumerable ∧ p.value.isSome then Handle.index? p.name else none

theorem borne?_eq_some_iff {p : Property} : borne? p = some n ↔ Bears Spelled p n := by
  unfold borne?
  constructor
  · intro h
    split at h
    · rename_i hp
      exact ⟨hp.1, hp.2, index?_eq_some_iff.mp h⟩
    · cases h
  · rintro ⟨henumerable, hvalued, hspelled⟩
    rw [if_pos ⟨henumerable, hvalued⟩, index?_eq_some_iff.mpr hspelled]

/-- The properties that bear a number, each under its number. -/
def borne (properties : List Property) : List (Nat × Property) :=
  properties.filterMap fun p => (borne? p).map (·, p)

theorem mem_borne {e : Nat × Property} : e ∈ borne properties ↔ e.2 ∈ properties ∧ Bears Spelled e.2 e.1 := by
  simp only [borne, List.mem_filterMap, Option.map_eq_some_iff, borne?_eq_some_iff]
  constructor
  · rintro ⟨p, hp, n, hn, rfl⟩
    exact ⟨hp, hn⟩
  · rintro ⟨hp, hn⟩
    exact ⟨e.2, hp, e.1, hn, rfl⟩

theorem map_snd_borne (properties : List Property) :
    (borne properties).map Prod.snd = properties.filter fun p => (borne? p).isSome := by
  induction properties with
  | nil => rfl
  | cons p rest ih =>
    unfold borne at ih ⊢
    cases hp : borne? p with
    | none => simp [hp, ih]
    | some n => simp [hp, ih]

/-- A property under its number, as its value. -/
def valueOf (e : Nat × Property) : Nat × RemoteObject := (e.1, e.2.value.getD default)

theorem indexed_eq (properties : List Property) :
    Handle.indexed properties = (borne properties).map valueOf := by
  unfold Handle.indexed borne
  rw [List.filterMap_filter, List.map_filterMap]
  refine List.filterMap_congr fun p _ => ?_
  unfold borne?
  cases p.enumerable <;> cases hvalue : p.value <;> cases Handle.index? p.name <;> simp [valueOf, hvalue]

/-- The entries in the order of their numbers. -/
def ranked (properties : List Property) : List (Nat × Property) :=
  (borne properties).mergeSort fun e e' => e.1 ≤ e'.1

theorem mergeSort_indexed (properties : List Property) :
    ((Handle.indexed properties).mergeSort fun a b => a.1 ≤ b.1) = (ranked properties).map valueOf := by
  rw [indexed_eq, ranked]
  exact (List.map_mergeSort (f := valueOf) (r := fun e e' => decide (e.1 ≤ e'.1))
    (s := fun a b => decide (a.1 ≤ b.1)) fun _ _ _ _ => rfl).symm

theorem ranked_perm (properties : List Property) : (ranked properties).Perm (borne properties) :=
  List.mergeSort_perm _ _

section Order

variable (e e' e'' : Nat × Property)

theorem entry_trans (h : decide (e.1 ≤ e'.1) = true) (h' : decide (e'.1 ≤ e''.1) = true) :
    decide (e.1 ≤ e''.1) = true :=
  decide_eq_true ((of_decide_eq_true h).trans (of_decide_eq_true h'))

theorem entry_total : (decide (e.1 ≤ e'.1) || decide (e'.1 ≤ e.1)) = true := by
  simpa using Nat.le_total e.1 e'.1

end Order

/-- The entries of one number stand as they did: they are sorted already, and the sort is stable. -/
theorem filter_ranked (properties : List Property) (n : Nat) :
    ((ranked properties).filter fun e => e.1 = n) = (borne properties).filter fun e => e.1 = n := by
  have hsorted : ((borne properties).filter fun e => e.1 = n).Pairwise fun e e' => decide (e.1 ≤ e'.1) = true := by
    refine List.pairwise_of_forall_mem_list fun e he e' he' => decide_eq_true ?_
    have hfirst : e.1 = n := of_decide_eq_true (List.mem_filter.mp he).2
    have hsecond : e'.1 = n := of_decide_eq_true (List.mem_filter.mp he').2
    omega
  have hkept := (List.sublist_mergeSort entry_trans entry_total hsorted List.filter_sublist).filter fun e => e.1 = n
  rw [List.filter_filter, funext fun e => Bool.and_self _] at hkept
  exact (hkept.eq_of_length ((ranked_perm properties).filter _).length_eq.symm).symm

theorem ranks_ranked (properties : List Property) : Ranks (· ≤ ·) Spelled properties (ranked properties) where
  bears e he := (mem_borne.mp ((ranked_perm properties).mem_iff.mp he)).2
  all := by
    refine ⟨properties.filter fun p => !(borne? p).isSome, ?_, ?_⟩
    · have hbearing : ((ranked properties).map Prod.snd).Perm (properties.filter fun p => (borne? p).isSome) :=
        map_snd_borne properties ▸ (ranked_perm properties).map Prod.snd
      exact (hbearing.append_right _).trans (List.filter_append_perm _ _)
    · intro p hp n hn
      have hnone := (List.mem_filter.mp hp).2
      rw [borne?_eq_some_iff.mpr hn] at hnone
      cases hnone
  ordered := (List.pairwise_mergeSort entry_trans entry_total _).imp of_decide_eq_true
  stable n := by
    rw [filter_ranked]
    refine (List.filter_sublist.map Prod.snd).trans ?_
    rw [map_snd_borne]
    exact List.filter_sublist

/-- Every handle is made for a value, one after another. -/
theorem concludes_wrapAll {values : List (Nat × RemoteObject)} {record : List (Instant P)}
    {r : Except Error (List Handle)}
    (h : Concludes P patience (values.mapM fun (_, remote) => wrap remote) record r) :
    ∃ made, r = .ok made ∧ made.map Handle.remote = values.map Prod.snd ∧
      List.Forall₂ (fun h m => ∃ w : World P, m = ⟨w, .wrap h.remote⟩ ∧ h = (w.wrap h.remote).1) made record := by
  induction values generalizing record r with
  | nil =>
    rw [List.mapM_nil] at h
    obtain ⟨rfl, rfl⟩ := h.ofPure
    exact ⟨[], rfl, rfl, .nil⟩
  | cons value rest ih =>
    rw [List.mapM_cons] at h
    rcases h.andThen with ⟨e, rfl, hfailed⟩ | ⟨first, second, handle, rfl, hfirst, hsecond⟩
    · obtain ⟨w, -, hr⟩ := concludes_wrap hfailed
      cases hr
    obtain ⟨w, rfl, hhandle⟩ := concludes_wrap hfirst
    cases hhandle
    rcases hsecond.andThen with ⟨e, rfl, hfailed⟩ | ⟨third, last, more, rfl, hthird, hlast⟩
    · obtain ⟨made, hr, -⟩ := ih hfailed
      cases hr
    obtain ⟨made, hmade, hremotes, hnew⟩ := ih hthird
    cases hmade
    obtain ⟨rfl, rfl⟩ := hlast.ofPure
    refine ⟨_ :: more, rfl, congrArg (List.cons value.2) hremotes, ?_⟩
    rw [List.append_nil]
    exact .cons ⟨w, rfl, rfl⟩ hnew

/-- The parameters of a question for the properties of an object. -/
def listingParams (id : String) : Json := params [("objectId", .string id), ("ownProperties", .bool true)]

/-- What comes of asking for the items of an array: one command, and for every property that bears a
number a new handle. -/
inductive Itemized (h : Handle) : List (Instant P) → Except Error (List Handle) → Prop
  | primitive (hid : h.remote.objectId = none) :
      Itemized h [] (.error (.internal "Cannot list properties of a primitive"))
  | refused {id : String} {record : List (Instant P)} {e : Error} (hid : h.remote.objectId = some id)
      (hsent : Sent "Runtime.getProperties" (listingParams id) record (.error e)) :
      Itemized h record (.error e)
  | unreadable {id : String} {record : List (Instant P)} {reply : Json} (hid : h.remote.objectId = some id)
      (hsent : Sent "Runtime.getProperties" (listingParams id) record (.ok reply))
      (hread : Property.listReader.ofJson? reply = none) :
      Itemized h record (.error (.serialization "an unexpected reply"))
  | listed {id : String} {record wraps : List (Instant P)} {reply : Json} {properties : List Property}
      {made : List Handle} (hid : h.remote.objectId = some id)
      (hsent : Sent "Runtime.getProperties" (listingParams id) record (.ok reply))
      (hread : Property.listReader.ofJson? reply = some properties)
      (hlists : Lists (· ≤ ·) Spelled properties made)
      (hnew : List.Forall₂ (fun h m => ∃ w : World P, m = ⟨w, .wrap h.remote⟩ ∧ h = (w.wrap h.remote).1)
        made wraps) :
      Itemized h (record ++ wraps) (.ok made)

theorem lists_of_remotes (h : made.map Handle.remote = ((ranked properties).map valueOf).map Prod.snd) :
    Lists (· ≤ ·) Spelled properties made := by
  refine ⟨ranked properties, ranks_ranked properties, ?_⟩
  have hvalued : ∀ e ∈ ranked properties, e.2.value.isSome = true :=
    fun e he => ((ranks_ranked properties).bears e he).valued
  generalize ranked properties = entries at h hvalued
  induction entries generalizing made with
  | nil =>
    obtain rfl := List.map_eq_nil_iff.mp h
    exact .nil
  | cons e entries ih =>
    obtain ⟨handle, rest, rfl, hhandle, hrest⟩ := List.map_eq_cons_iff.mp h
    refine .cons ?_ (ih hrest fun e he => hvalued e (List.mem_cons_of_mem _ he))
    obtain ⟨value, hvalue⟩ := Option.isSome_iff_exists.mp (hvalued e List.mem_cons_self)
    rw [hhandle, valueOf, hvalue]
    rfl

theorem itemized_of_concludes {h : Handle} {record : List (Instant P)} {r : Except Error (List Handle)}
    (hr : Concludes P patience h.arrayItems record r) : Itemized h record r := by
  unfold Handle.arrayItems Handle.reference at hr
  cases hid : h.remote.objectId with
  | none =>
    rw [hid] at hr
    obtain ⟨rfl, rfl⟩ := Concludes.ofThrow hr
    exact .primitive hid
  | some id =>
    rw [hid] at hr
    rw [pure_bind] at hr
    rcases hr.andThen with ⟨e, rfl, hfailed⟩ | ⟨sent, rest, reply, rfl, hsent, hrest⟩
    · exact .refused hid (concludes_send_iff.mp hfailed)
    have hreply := concludes_send_iff.mp hsent
    rcases hrest.andThen with ⟨e, rfl, hfailed⟩ | ⟨none, wraps, properties, rfl, hread, hwraps⟩
    · obtain ⟨rfl, ⟨v, -, h⟩ | ⟨hread, h⟩⟩ := concludes_read_iff.mp hfailed
      · cases h
      · cases h
        rw [List.append_nil]
        exact .unreadable hid hreply hread
    · obtain ⟨rfl, ⟨v, hread, h⟩ | ⟨-, h⟩⟩ := concludes_read_iff.mp hread
      · cases h
        obtain ⟨made, rfl, hremotes, hnew⟩ := concludes_wrapAll hwraps
        rw [mergeSort_indexed] at hremotes
        exact .listed hid hreply hread (lists_of_remotes hremotes) hnew
      · cases h

/-- What is asked and what comes of it when the items of an array are listed: it comes to an end, with a
handle for the value of each property that spells a number, in the order of the numbers; and that is a
handle for each item of the array and for nothing else, in strictly increasing order of their places,
exactly when no other property spells a number, and no place is taken twice.  Places may be all numbers
that fit a word, or only those below a smaller limit. -/
theorem lists_of_arrayItems (w : World P) (h : Handle) :
    Finishes P patience h.arrayItems.outcome ∧
      (∀ record r, Concludes P patience h.arrayItems record r → Itemized h record r) ∧
      ∀ properties made limit, limit ≤ UInt64.size → Lists (· ≤ ·) Spelled properties made →
        (Lists (· < ·) (Canonical limit) properties made ↔ Regular limit properties) :=
  ⟨finishes_of_asks w (asks_arrayItems mild_patient.toPlain h), fun _ _ => itemized_of_concludes,
    fun _ _ _ hlimit hlists => ⟨regular_of_lists hlimit hlists, lists_of_regular hlimit hlists⟩⟩

/-! ### Two arrays -/

/-- A page that answers every command with one listing. -/
def lister (listing : Json) : Peer where
  State := Unit
  command _ _ s := (⟨0, .ok listing⟩, [], s)
  listen _ := .ok ()
  close s := (.ok (), s)

/-- A handle of an array. -/
def heldArray : Handle := ⟨0, ⟨"object", some "array", some "list", none, none, none⟩⟩

/-- What such a page lists is listed by its array. -/
theorem exists_lists {listing : Json} (hread : Property.listReader.ofJson? listing = some properties) :
    ∃ record made, Concludes (lister listing) 0 heldArray.arrayItems record (.ok made) ∧
      Lists (· ≤ ·) Spelled properties made := by
  have hends : Finishes (lister listing) 0 heldArray.arrayItems.outcome :=
    finishes_of_asks (World.init () "") (asks_arrayItems mild_patient.toPlain heldArray)
  obtain ⟨record, r, hr⟩ := hends [] _ (.stays _)
  refine ⟨record, ?_⟩
  cases itemized_of_concludes hr with
  | primitive hid => cases hid
  | refused hid hsent =>
    cases hsent with
    | refused h => cases h
    | severed h => cases h
  | unreadable hid hsent hnone =>
    cases hsent with
    | replied h =>
      cases h
      rw [hread] at hnone
      cases hnone
  | listed hid hsent hsome hlists =>
    cases hsent with
    | replied h =>
      cases h
      rw [hread] at hsome
      cases hsome
      exact ⟨_, hr, hlists⟩

/-- A property of an array as it is listed, with a reference for its value. -/
def listedProperty (name id : String) (enumerable : Bool) : Json :=
  .object [("name", .string name), ("enumerable", .bool enumerable),
    ("value", .object [("type", .string "object"), ("objectId", .string id)])]

/-- The same, as it is read. -/
def readProperty (name id : String) (enumerable : Bool) : Property :=
  ⟨name, some ⟨"object", none, some id, none, none, none⟩, enumerable⟩

/-- A pair, the second item first and then something that others do not see. -/
def pairListing : Json := .object [("result", .array [
  listedProperty "1" "b" true, listedProperty "length" "two" false, listedProperty "0" "a" true])]

/-- Its properties. -/
def pairProperties : List Property :=
  [readProperty "1" "b" true, readProperty "length" "two" false, readProperty "0" "a" true]

/-- The items of the pair are listed, and nothing else. -/
theorem lists_of_pair :
    ∃ record made, Concludes (lister pairListing) 0 heldArray.arrayItems record (.ok made) ∧
      Itemized heldArray record (.ok made) ∧
      Lists (· < ·) (Canonical (2 ^ 32 - 1)) pairProperties made := by
  have hread : Property.listReader.ofJson? pairListing = some pairProperties := rfl
  obtain ⟨record, made, hr, hlists⟩ := exists_lists hread
  obtain ⟨-, hitems, hexact⟩ := @lists_of_arrayItems (lister pairListing) 0 (World.init () "") heldArray
  have hone : Handle.index? "1" = some 1 := by decide +kernel
  have hzero : Handle.index? "0" = some 0 := by decide +kernel
  have hbears : ∀ p ∈ pairProperties, ∀ n, Bears Spelled p n →
      (p = readProperty "1" "b" true ∧ n = 1) ∨ (p = readProperty "0" "a" true ∧ n = 0) := by
    intro p hp n hn
    simp only [pairProperties, List.mem_cons, List.not_mem_nil, or_false] at hp
    rcases hp with rfl | rfl | rfl
    · exact .inl ⟨rfl, hn.named.unique (spelled_of_index? hone)⟩
    · cases hn.enumerable
    · exact .inr ⟨rfl, hn.named.unique (spelled_of_index? hzero)⟩
  refine ⟨record, made, hr, hitems record _ hr, (hexact _ made _ (by decide) hlists).mpr ⟨?_, ?_⟩⟩
  · intro p hp n hn
    rcases hbears p hp n hn with ⟨rfl, rfl⟩ | ⟨rfl, rfl⟩
    · exact ⟨by decide, rfl⟩
    · exact ⟨by decide, rfl⟩
  · have hdistinct : pairProperties.Pairwise (· ≠ ·) := by simp [pairProperties, readProperty]
    refine hdistinct.imp_of_mem fun {p q} hp hq hne n hpn hqn => hne ?_
    rcases hbears p hp n hpn with ⟨rfl, rfl⟩ | ⟨rfl, rfl⟩ <;>
      rcases hbears q hq _ hqn with ⟨rfl, h⟩ | ⟨rfl, h⟩
    · rfl
    · cases h
    · cases h
    · rfl

/-- A pair with a property of its own besides, of which the name has a zero too many. -/
def paddedListing : Json := .object [("result", .array [
  listedProperty "1" "b" true, listedProperty "01" "c" true, listedProperty "0" "a" true])]

/-- Its properties. -/
def paddedProperties : List Property :=
  [readProperty "1" "b" true, readProperty "01" "c" true, readProperty "0" "a" true]

/-- The property of its own is listed with the items. -/
theorem not_lists_of_padded :
    Property.listReader.ofJson? paddedListing = some paddedProperties ∧
      ∃ record made, Concludes (lister paddedListing) 0 heldArray.arrayItems record (.ok made) ∧
        ∀ limit ≤ UInt64.size, ¬ Lists (· < ·) (Canonical limit) paddedProperties made := by
  have hread : Property.listReader.ofJson? paddedListing = some paddedProperties := rfl
  obtain ⟨record, made, hr, hlists⟩ := exists_lists hread
  refine ⟨hread, record, made, hr, fun limit hlimit hitems => ?_⟩
  have hpadded : Handle.index? "01" = some 1 := by decide +kernel
  have hcanonical := (regular_of_lists hlimit hlists hitems).canonical (readProperty "01" "c" true)
    (by simp [paddedProperties]) 1 ⟨rfl, rfl, spelled_of_index? hpadded⟩
  exact absurd hcanonical.2 (by decide)

end Wayfind.Remote
