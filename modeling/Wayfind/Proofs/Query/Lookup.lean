/-
Routing is a lookup.

The registry tries its entries one after another: each takes its own name off the front of the
selector, as many characters as the name has, and looks whether a separator follows.  Names are
made of letters, so no separator is inside one, and whatever entry gets through has for its name
all that stands before the first separator (`stripName?_eq_cut`).  Hence the scan is one lookup on
that text (`resolve_eq_lookup_of_named`), for every text, and also where the front is counted in
bytes rather than characters (`stripBytes?_eq`).
-/
import Mathlib
import Wayfind.Query.Registry

namespace Wayfind.Query

/-! ### Names up to case -/

theorem le_toNat_toLower {d : Char} (hd : d.isAlpha = true) : 97 ≤ d.toLower.toNat := by
  simp only [Char.isAlpha, Char.isUpper, Char.isLower, Bool.or_eq_true, Bool.and_eq_true,
    decide_eq_true_eq, UInt32.le_iff_toNat_le, ge_iff_le] at hd
  have hA : 'A'.val.toNat = 65 := rfl
  have hZ : 'Z'.val.toNat = 90 := rfl
  have ha : 'a'.val.toNat = 97 := rfl
  unfold Char.toLower
  split
  · rename_i h
    show 97 ≤ (d.val + 32).toNat
    have hshift : (32 : UInt32).toNat = 32 := rfl
    simp only [UInt32.le_iff_toNat_le, ge_iff_le] at h
    rw [UInt32.toNat_add]
    omega
  · rename_i h
    show 97 ≤ d.val.toNat
    simp only [UInt32.le_iff_toNat_le, ge_iff_le] at h
    omega

/-- No letter turns into a separator with its case. -/
theorem toLower_ne_of_isSeparator {d c : Char} (hd : d.isAlpha = true) (hc : isSeparator c = true) :
    d.toLower ≠ c.toLower := by
  intro heq
  have hle := le_toNat_toLower hd
  rw [heq] at hle
  simp only [isSeparator, Bool.or_eq_true, decide_eq_true_eq] at hc
  rcases hc with rfl | rfl <;> exact absurd hle (by decide)

theorem isSeparator_of_isAlpha {d : Char} (hd : d.isAlpha = true) : isSeparator d = false :=
  Bool.eq_false_iff.mpr fun h => toLower_ne_of_isSeparator hd h rfl

/-- Letters take as many bytes in either case. -/
theorem utf8Size_toLower (c : Char) : c.toLower.utf8Size = c.utf8Size := by
  unfold Char.toLower
  split
  · rename_i h
    have hA : 'A'.val.toNat = 65 := rfl
    have hZ : 'Z'.val.toNat = 90 := rfl
    have hshift : (32 : UInt32).toNat = 32 := rfl
    have hone : (0x7F : UInt32).toNat = 127 := rfl
    simp only [UInt32.le_iff_toNat_le, ge_iff_le] at h
    have hbefore : c.val ≤ 0x7F := by
      rw [UInt32.le_iff_toNat_le]
      omega
    have hafter : c.val + 32 ≤ 0x7F := by
      rw [UInt32.le_iff_toNat_le, UInt32.toNat_add]
      omega
    exact (if_pos hafter).trans (if_pos hbefore).symm
  · rfl

theorem map_toLower_of_sameName {a b : List Char} (h : sameName a b = true) :
    a.map Char.toLower = b.map Char.toLower := by
  simpa [sameName] using h

theorem length_of_sameName {a b : List Char} (h : sameName a b = true) : a.length = b.length := by
  simpa using congrArg List.length (map_toLower_of_sameName h)

theorem sameName_cons (c d : Char) (a b : List Char) :
    sameName (c :: a) (d :: b) = (c.toLower == d.toLower && sameName a b) := rfl

/-! ### The front of a selector, in characters and in bytes -/

/-- The number of bytes of a text. -/
def byteLength (text : List Char) : Nat := (text.map Char.utf8Size).sum

/-- What stands before and behind a number of bytes.  There is no such place past the end of a
text, nor inside a character. -/
def splitBytes? : Nat → List Char → Option (List Char × List Char)
  | 0, text => some ([], text)
  | _ + 1, [] => none
  | n + 1, c :: text =>
    if c.utf8Size ≤ n + 1 then
      (splitBytes? (n + 1 - c.utf8Size) text).map fun parts => (c :: parts.1, parts.2)
    else none

/-- The selector behind a name and a separator, when its first bytes, as many as the name has, are
the name up to case. -/
def stripBytes? (name selector : List Char) : Option (List Char) :=
  match splitBytes? (byteLength name) selector with
  | some (front, c :: rest) =>
    if sameName front name && isSeparator c then some rest else none
  | _ => none

theorem byteLength_of_sameName {a b : List Char} (h : sameName a b = true) :
    byteLength a = byteLength b := by
  have hsize : ∀ text : List Char,
      byteLength text = ((text.map Char.toLower).map Char.utf8Size).sum := fun text => by
    simp [byteLength, List.map_map, Function.comp_def, utf8Size_toLower]
  rw [hsize a, hsize b, map_toLower_of_sameName h]

theorem splitBytes?_append (front rest : List Char) :
    splitBytes? (byteLength front) (front ++ rest) = some (front, rest) := by
  induction front with
  | nil => cases rest <;> rfl
  | cons c front ih =>
    have hpos := c.utf8Size_pos
    obtain ⟨n, hn⟩ : ∃ n, byteLength (c :: front) = n + 1 :=
      Nat.exists_eq_succ_of_ne_zero (by simp only [byteLength, List.map_cons, List.sum_cons]; omega)
    have hfront : n + 1 - c.utf8Size = byteLength front := by
      rw [← hn]
      simp [byteLength]
    have hle : c.utf8Size ≤ n + 1 := by
      rw [← hn]
      simp [byteLength]
    rw [hn, List.cons_append, splitBytes?, if_pos hle, hfront, ih]
    rfl

theorem append_of_splitBytes? {n : Nat} {text front rest : List Char}
    (h : splitBytes? n text = some (front, rest)) : text = front ++ rest := by
  induction text generalizing n front with
  | nil =>
    cases n with
    | zero =>
      cases h
      rfl
    | succ n => cases h
  | cons c text ih =>
    cases n with
    | zero =>
      cases h
      rfl
    | succ n =>
      rw [splitBytes?] at h
      split at h
      · cases hsplit : splitBytes? (n + 1 - c.utf8Size) text with
        | none => rw [hsplit] at h; cases h
        | some parts =>
          rw [hsplit] at h
          cases h
          rw [List.cons_append, ← ih hsplit]
      · cases h

/-- Counting the front in bytes or in characters comes to the same, in any text. -/
theorem stripBytes?_eq (name selector : List Char) :
    stripBytes? name selector = stripName? name selector := by
  cases hsame : sameName (selector.take name.length) name with
  | true =>
    have hsplit : splitBytes? (byteLength name) selector =
        some (selector.take name.length, selector.drop name.length) := by
      have hfront := splitBytes?_append (selector.take name.length) (selector.drop name.length)
      rwa [List.take_append_drop, byteLength_of_sameName hsame] at hfront
    rw [stripBytes?, stripName?, hsplit, if_pos hsame]
    cases selector.drop name.length with
    | nil => rfl
    | cons c rest => simp only [hsame, Bool.true_and]
  | false =>
    rw [stripName?, hsame, if_neg Bool.false_ne_true, stripBytes?]
    split
    · rename_i front c rest hsplit
      -- A front with the name's letters has as many characters as the name.
      have hother : sameName front name = false := by
        refine Bool.eq_false_iff.mpr fun hfront => Bool.eq_false_iff.mp hsame ?_
        rwa [append_of_splitBytes? hsplit, ← length_of_sameName hfront, List.take_left]
      simp [hother]
    · rfl

/-- No name is taken off the middle of a character, nor for its number of bytes alone. -/
example : stripBytes? ['a'] ['é', '='] = none ∧ stripBytes? ['a', 'b'] ['é', '='] = none := by decide

/-! ### Before and behind the first separator -/

/-- What stands before the first separator of a text, and what behind it. -/
def cut? (text : List Char) : Option (List Char × List Char) :=
  match text.dropWhile fun c => !isSeparator c with
  | _ :: rest => some (text.takeWhile fun c => !isSeparator c, rest)
  | [] => none

theorem cut?_cons (c : Char) (text : List Char) :
    cut? (c :: text) =
      if isSeparator c then some ([], text)
      else (cut? text).map fun parts => (c :: parts.1, parts.2) := by
  cases hc : isSeparator c with
  | true => simp [cut?, hc]
  | false =>
    simp only [cut?, List.dropWhile_cons, List.takeWhile_cons, hc, Bool.not_false, if_true]
    cases text.dropWhile fun c => !isSeparator c <;> simp

theorem cut?_append {head : List Char} (hhead : ∀ d ∈ head, isSeparator d = false) {c : Char}
    (hc : isSeparator c = true) (rest : List Char) : cut? (head ++ c :: rest) = some (head, rest) := by
  induction head with
  | nil => rw [List.nil_append, cut?_cons, if_pos hc]
  | cons d head ih =>
    rw [List.forall_mem_cons] at hhead
    rw [List.cons_append, cut?_cons, hhead.1, if_neg Bool.false_ne_true, ih hhead.2]
    rfl

/-- A name of letters gets through just where it is, up to case, all that stands before the first
separator. -/
theorem stripName?_eq_cut {name : List Char} (hname : ∀ d ∈ name, d.isAlpha = true)
    (selector : List Char) :
    stripName? name selector =
      (cut? selector).bind fun parts => if sameName parts.1 name then some parts.2 else none := by
  induction name generalizing selector with
  | nil =>
    cases selector with
    | nil => rfl
    | cons c rest =>
      have hsome : ∀ head : List Char, sameName (c :: head) [] = false := fun _ => rfl
      rw [cut?_cons]
      cases hc : isSeparator c with
      | true => simp [stripName?, sameName, hc]
      | false => cases cut? rest <;> simp [stripName?, hc, hsome]
  | cons d name ih =>
    rw [List.forall_mem_cons] at hname
    cases selector with
    | nil => rfl
    | cons c rest =>
      have hstrip : stripName? (d :: name) (c :: rest) =
          if c.toLower == d.toLower then stripName? name rest else none := by
        simp only [stripName?, List.length_cons, List.take_succ_cons, List.drop_succ_cons,
          sameName_cons]
        cases c.toLower == d.toLower <;> rfl
      rw [hstrip, cut?_cons, ih hname.2]
      cases hc : isSeparator c with
      | true =>
        -- A separator in front, where the name has a letter.
        have hne := beq_false_of_ne (toLower_ne_of_isSeparator hname.1 hc).symm
        have hempty : sameName [] (d :: name) = false := rfl
        simp [hne, hempty]
      | false =>
        cases cut? rest with
        | none => simp
        | some parts =>
          simp only [Option.bind_some, Option.map_some, Bool.false_eq_true, if_false, sameName_cons]
          by_cases hlower : (c.toLower == d.toLower) = true <;> simp [hlower]

/-! ### The scan of the entries -/

/-- What leads to the first entry whose name stands before the first separator, up to case, is what
stands behind it; a selector that names no entry is plain CSS as it is. -/
def lookup (entries : List (String × Handler)) (selector : String) : Handler × String :=
  match cut? selector.toList with
  | some (head, rest) =>
    match entries.find? fun e => sameName head e.1.toList with
    | some e => (e.2, String.ofList rest)
    | none => (Handler.css, selector)
  | none => (Handler.css, selector)

namespace Registry

theorem isAlpha_of_isName {name : String} (h : isName name = true) :
    ∀ d ∈ name.toList, d.isAlpha = true := by
  simp only [isName, Bool.and_eq_true, List.all_eq_true] at h
  exact h.2

/-- The scan stops where the lookup does. -/
theorem findSome?_stripName {entries : List (String × Handler)}
    (hnamed : ∀ e ∈ entries, isName e.1 = true) (selector : String) :
    (entries.findSome? fun e => (stripName? e.1.toList selector.toList).map fun rest =>
      (e.2, String.ofList rest)).getD (Handler.css, selector) = lookup entries selector := by
  unfold lookup
  induction entries with
  | nil => cases cut? selector.toList <;> rfl
  | cons e entries ih =>
    rw [List.forall_mem_cons] at hnamed
    have hrest := ih hnamed.2
    rw [List.findSome?_cons, stripName?_eq_cut (isAlpha_of_isName hnamed.1)]
    cases hcut : cut? selector.toList with
    | none => simpa [hcut] using hrest
    | some parts =>
      rw [hcut] at hrest
      simp only [Option.bind_some, List.find?_cons]
      cases hsame : sameName parts.1 e.1.toList with
      | true => simp
      | false => simpa using hrest

theorem isName_builtin : ∀ e ∈ builtinHandlers.map (fun h => (h.dialect.name, h)),
    isName e.1 = true := by
  decide

/-- Where every listed name is made of letters, routing is a lookup on what stands before the first
separator. -/
theorem resolve_eq_lookup_of_named {r : Registry} (hnamed : ∀ e ∈ r.custom, isName e.1 = true)
    (selector : String) : r.resolve selector = lookup r.entries selector := by
  refine findSome?_stripName (fun e he => ?_) selector
  rcases List.mem_append.mp he with hbuiltin | hcustom
  · exact isName_builtin e hbuiltin
  · exact hnamed e hcustom

end Registry

end Wayfind.Query
