/-
A document that has been written is read back.

The writer goes over a document once; the reader scans characters into tokens and then
builds a tree out of them.  Between the two stands the list of tokens a document is
written as: `WrittenAs` says that its text is scanned into them, whatever text follows, and
that the machine builds its tree from them, wherever a value may stand.  Strings have such
tokens whatever they hold (`writtenAs_string`), and arrays and objects have them when what is
in them does (`writtenAs_array`, `writtenAs_object`).  Nothing is said of numbers: what is read of
a double depends on the rounding of its digits.
-/
import Mathlib.Tactic.SplitIfs
import Wayfind.Json.Document
import Wayfind.Json.Writer

namespace Wayfind.Json

namespace Token

/-! ### Strings -/

theorem hexValue_hexDigit : ∀ n < 16, hexValue (hexDigit n) = some n := by decide

/-- A control character is its own code. -/
theorem join_code {c : Char} (h : c.toNat < 0x20) (us : List Part) :
    join (.code c.toNat :: us) = (join us).map (c :: ·) := by
  have hhigh : isHigh c.toNat = false := by simp [isHigh]; omega
  have hlow : isLow c.toNat = false := by simp [isLow]; omega
  rw [join.eq_def (.code c.toNat :: us)]
  simp only [hhigh, hlow, Char.ofNat_toNat, Bool.false_eq_true, if_false]

theorem units_shortEscape {e c : Char} (h : shortEscape e = some c) (rest : List Char) :
    units ('\\' :: e :: rest) = (units rest).map fun p => (.char c :: p.1, p.2) := by
  have hu : e ≠ 'u' := by
    rintro rfl
    cases h
  rw [units.eq_4 e rest fun _ _ _ _ _ he _ => hu he, h]
  cases units rest <;> rfl

theorem units_code {c : Char} (h : c.toNat < 0x20) (rest : List Char) :
    units ('\\' :: 'u' :: '0' :: '0' :: hexDigit (c.toNat / 16) :: hexDigit (c.toNat % 16) :: rest) =
      (units rest).map fun p => (.code c.toNat :: p.1, p.2) := by
  have hquad : hexQuad '0' '0' (hexDigit (c.toNat / 16)) (hexDigit (c.toNat % 16)) =
      some c.toNat := by
    have hzero : hexValue '0' = some 0 := rfl
    simp only [hexQuad, hzero, hexValue_hexDigit (c.toNat / 16) (by omega),
      hexValue_hexDigit (c.toNat % 16) (by omega), Option.bind_eq_bind, Option.bind_some,
      Option.pure_def]
    congr 1
    omega
  rw [units, hquad]
  cases units rest <;> rfl

theorem units_plain {c : Char} (hquote : c ≠ '"') (hslash : c ≠ '\\') (h : ¬c.toNat < 0x20)
    (rest : List Char) : units (c :: rest) = (units rest).map fun p => (.char c :: p.1, p.2) := by
  rw [units.eq_5 c rest hquote (fun _ _ _ _ _ he _ => hslash he) fun _ _ he _ => hslash he,
    if_neg (by simp [h, hslash])]
  cases units rest <;> rfl

/-- A character is written as a short escape, as its code, or as itself. -/
theorem escape_cases (c : Char) :
    (∃ e, escape c = ['\\', e] ∧ shortEscape e = some c) ∨
    (c.toNat < 0x20 ∧
      escape c = ['\\', 'u', '0', '0', hexDigit (c.toNat / 16), hexDigit (c.toNat % 16)]) ∨
    (escape c = [c] ∧ c ≠ '"' ∧ c ≠ '\\' ∧ ¬c.toNat < 0x20) := by
  unfold escape
  split_ifs with hquote hslash hb ht hn hf hr hctl
  all_goals try (subst_vars; exact .inl ⟨_, rfl, rfl⟩)
  · exact .inr (.inl ⟨hctl, rfl⟩)
  · exact .inr (.inr ⟨rfl, hquote, hslash, hctl⟩)

/-- A character is written as one unit, and the unit stands for the character. -/
theorem units_escape (c : Char) (rest : List Char) :
    ∃ u : Part, units (escape c ++ rest) = (units rest).map (fun p => (u :: p.1, p.2)) ∧
      ∀ us, join (u :: us) = (join us).map (c :: ·) := by
  obtain ⟨e, hc, he⟩ | ⟨hctl, hc⟩ | ⟨hc, hquote, hslash, hctl⟩ := escape_cases c <;> rw [hc]
  · exact ⟨.char c, units_shortEscape he rest, fun _ => rfl⟩
  · exact ⟨.code c.toNat, units_code hctl rest, join_code hctl⟩
  · exact ⟨.char c, units_plain hquote hslash hctl rest, fun _ => rfl⟩

theorem units_escapes (cs rest : List Char) :
    ∃ us, units (cs.flatMap escape ++ '"' :: rest) = some (us, rest) ∧ join us = some cs := by
  induction cs with
  | nil => exact ⟨[], by simp [units], rfl⟩
  | cons c cs ih =>
    obtain ⟨us, hunits, hjoin⟩ := ih
    obtain ⟨u, hu, hc⟩ := units_escape c (cs.flatMap escape ++ '"' :: rest)
    refine ⟨u :: us, ?_, by rw [hc, hjoin]; rfl⟩
    rw [List.flatMap_cons, List.append_assoc, hu, hunits]
    rfl

theorem first?_quote (s : String) (rest : List Char) :
    first? (quote s ++ rest) = some (.string (some s), rest) := by
  obtain ⟨us, hunits, hjoin⟩ := units_escapes s.toList rest
  rw [quote, List.cons_append, List.append_assoc, List.singleton_append, first?, hunits]
  simp [hjoin]

/-! ### Scanning -/

variable {c : Char} {cs rest : List Char} {t : Token} {ts : List Token}

/-- The text is scanned into the tokens, given a step for each of its characters. -/
def Scans (cs : List Char) (ts : List Token) : Prop :=
  ∀ fuel, cs.length ≤ fuel → scanWithin fuel cs = some ts

theorem scans_nil : Scans [] [] := by
  intro fuel _
  cases fuel <;> rfl

/-- One token, and the text behind it. -/
theorem Scans.token (hspace : isSpace c = false) (hfirst : first? (c :: cs) = some (t, rest))
    (hlen : rest.length ≤ cs.length) (h : Scans rest ts) : Scans (c :: cs) (t :: ts) := by
  intro fuel hfuel
  obtain _ | fuel := fuel
  · simp at hfuel
  · rw [List.length_cons, Nat.add_le_add_iff_right] at hfuel
    rw [scanWithin, List.dropWhile_cons_of_neg (by simp [hspace])]
    simp [hfirst, h fuel (Nat.le_trans hlen hfuel)]

theorem Scans.quote (s : String) (h : Scans rest ts) :
    Scans (quote s ++ rest) (.string (some s) :: ts) :=
  h.token rfl (first?_quote s rest) (by simp; omega)

end Token

open Token (Scans)

namespace Document

/-! ### Building -/

/-- A value may stand here. -/
def Expect.Opens : Expect → Prop
  | .value | .firstItem => True
  | _ => False

/-- The machine builds the tree from the tokens, wherever a value may stand. -/
def Builds (ts : List Token) (tree : Document) : Prop :=
  ∀ (e : Expect) stack, e.Opens →
    ts.foldlM Machine.step ⟨e, stack⟩ = some ⟨.next tree, stack⟩

theorem builds_leaf {t : Token} {tree : Document} (h : leaf? t = some tree) :
    Builds [t] tree := by
  intro e stack he
  cases t <;> cases h <;> cases e <;> first | exact he.elim | rfl

theorem Builds.append {ts more : List Token} {tree : Document} (h : Builds ts tree) {e : Expect}
    (he : e.Opens) (stack : List Frame) :
    (ts ++ more).foldlM Machine.step ⟨e, stack⟩ = more.foldlM Machine.step ⟨.next tree, stack⟩ := by
  rw [List.foldlM_append, h e stack he]
  rfl

end Document

open Document (Builds)

/-- The document is written as the tokens, and they build its tree. -/
structure WrittenAs (doc : Json) (ts : List Token) : Prop where
  scans : ∀ {rest more}, Scans rest more → Scans (render doc ++ rest) (ts ++ more)
  builds : Builds ts (Document.ofJson doc)

theorem writtenAs_string (s : String) : WrittenAs (.string s) [.string (some s)] where
  scans h := h.quote s
  builds := Document.builds_leaf rfl

/-! ### Containers -/

open Document (Machine Expect Frame)

variable {items : List Json} {members : List (String × Json)}

theorem renderItems_cons_cons (item second : Json) (items : List Json) :
    renderItems (item :: second :: items) = render item ++ ',' :: renderItems (second :: items) := by
  rw [renderItems]
  exact List.cons_ne_nil _ _

/-- The items of an array and the bracket behind them, when there are any. -/
theorem writtenAs_items (hne : items ≠ []) (h : ∀ item ∈ items, ∃ ts, WrittenAs item ts) :
    ∃ ts,
      (∀ {rest more}, Scans rest more → Scans (renderItems items ++ ']' :: rest) (ts ++ more)) ∧
      ∀ (e : Expect) before stack, e.Opens →
        ts.foldlM Machine.step ⟨e, .array before :: stack⟩ =
          some ⟨.next (.array (before.reverse ++ Document.ofItems items)), stack⟩ := by
  induction items with
  | nil => exact absurd rfl hne
  | cons item items ih =>
    rw [List.forall_mem_cons] at h
    obtain ⟨ts, hts⟩ := h.1
    cases items with
    | nil =>
      refine ⟨ts ++ [.closeArray], fun hrest => ?_, fun e before stack he => ?_⟩
      · rw [List.append_assoc]
        exact hts.scans (hrest.token rfl rfl (Nat.le_refl _))
      · rw [hts.builds.append he]
        simp [Machine.step, Document.ofItems]
    | cons second items =>
      obtain ⟨others, hscans, hbuilds⟩ := ih (List.cons_ne_nil _ _) h.2
      refine ⟨ts ++ .comma :: others, fun hrest => ?_, fun e before stack he => ?_⟩
      · rw [List.append_assoc, renderItems_cons_cons, List.append_assoc, List.cons_append]
        exact hts.scans ((hscans hrest).token rfl rfl (Nat.le_refl _))
      · rw [hts.builds.append he, List.foldlM_cons]
        refine (hbuilds .value _ stack trivial).trans ?_
        simp [Document.ofItems]

theorem writtenAs_array (h : ∀ item ∈ items, ∃ ts, WrittenAs item ts) :
    ∃ ts, WrittenAs (.array items) ts := by
  by_cases hne : items = []
  · subst hne
    refine ⟨[.openArray, .closeArray], fun hrest => ?_, fun e stack he => ?_⟩
    · exact (hrest.token rfl rfl (Nat.le_refl _)).token rfl rfl (Nat.le_refl _)
    · cases e <;> first | exact he.elim | rfl
  · obtain ⟨ts, hscans, hbuilds⟩ := writtenAs_items hne h
    refine ⟨.openArray :: ts, fun hrest => ?_, fun e stack he => ?_⟩
    · rw [render, List.cons_append, List.append_assoc]
      exact (hscans hrest).token rfl rfl (Nat.le_refl _)
    · have hopen : Machine.step ⟨e, stack⟩ .openArray = some ⟨.firstItem, .array [] :: stack⟩ := by
        cases e <;> first | exact he.elim | rfl
      rw [List.foldlM_cons, hopen]
      exact hbuilds .firstItem [] stack trivial

theorem renderMembers_cons_cons (m second : String × Json) (members : List (String × Json)) :
    renderMembers (m :: second :: members) =
      quote m.1 ++ ':' :: (render m.2 ++ ',' :: renderMembers (second :: members)) := by
  rw [renderMembers]
  exact List.cons_ne_nil _ _

/-- A member, up to its value. -/
theorem builds_key {e : Expect} (he : e = .key ∨ e = .firstKey) (before : List _) (last : Option String)
    (stack : List Frame) (key : Option String) (ts : List Token) :
    (.string key :: .colon :: ts).foldlM Machine.step ⟨e, .object before last :: stack⟩ =
      ts.foldlM Machine.step ⟨.value, .object before key :: stack⟩ := by
  rcases he with rfl | rfl <;> rfl

/-- The members of an object and the brace behind them, when there are any. -/
theorem writtenAs_members (hne : members ≠ []) (h : ∀ m ∈ members, ∃ ts, WrittenAs m.2 ts) :
    ∃ ts,
      (∀ {rest more}, Scans rest more →
        Scans (renderMembers members ++ '\x7d' :: rest) (ts ++ more)) ∧
      ∀ (e : Expect) before key stack, e = .key ∨ e = .firstKey →
        ts.foldlM Machine.step ⟨e, .object before key :: stack⟩ =
          some ⟨.next (.object (before.reverse ++ Document.ofMembers members)), stack⟩ := by
  induction members with
  | nil => exact absurd rfl hne
  | cons m members ih =>
    rw [List.forall_mem_cons] at h
    obtain ⟨ts, hts⟩ := h.1
    cases members with
    | nil =>
      refine ⟨.string (some m.1) :: .colon :: (ts ++ [.closeObject]), fun hrest => ?_,
        fun e before key stack he => ?_⟩
      · rw [renderMembers, List.append_assoc, List.cons_append, List.cons_append, List.cons_append,
          List.append_assoc]
        exact ((hts.scans (hrest.token rfl rfl (Nat.le_refl _))).token rfl rfl
          (Nat.le_refl _)).quote m.1
      · rw [builds_key he, hts.builds.append (e := .value) trivial]
        simp [Machine.step, Document.ofMembers]
    | cons second members =>
      obtain ⟨others, hscans, hbuilds⟩ := ih (List.cons_ne_nil _ _) h.2
      refine ⟨.string (some m.1) :: .colon :: (ts ++ .comma :: others), fun hrest => ?_,
        fun e before key stack he => ?_⟩
      · rw [renderMembers_cons_cons, List.append_assoc, List.cons_append, List.append_assoc,
          List.cons_append, List.cons_append, List.cons_append, List.append_assoc]
        exact ((hts.scans ((hscans hrest).token rfl rfl (Nat.le_refl _))).token rfl rfl
          (Nat.le_refl _)).quote m.1
      · rw [builds_key he, hts.builds.append (e := .value) trivial, List.foldlM_cons]
        refine (hbuilds .key _ _ stack (.inl rfl)).trans ?_
        simp [Document.ofMembers]

theorem writtenAs_object (h : ∀ m ∈ members, ∃ ts, WrittenAs m.2 ts) :
    ∃ ts, WrittenAs (.object members) ts := by
  by_cases hne : members = []
  · subst hne
    refine ⟨[.openObject, .closeObject], fun hrest => ?_, fun e stack he => ?_⟩
    · exact (hrest.token rfl rfl (Nat.le_refl _)).token rfl rfl (Nat.le_refl _)
    · cases e <;> first | exact he.elim | rfl
  · obtain ⟨ts, hscans, hbuilds⟩ := writtenAs_members hne h
    refine ⟨.openObject :: ts, fun hrest => ?_, fun e stack he => ?_⟩
    · rw [render, List.cons_append, List.append_assoc]
      exact (hscans hrest).token rfl rfl (Nat.le_refl _)
    · have hopen : Machine.step ⟨e, stack⟩ .openObject =
          some ⟨.firstKey, .object [] none :: stack⟩ := by
        cases e <;> first | exact he.elim | rfl
      rw [List.foldlM_cons, hopen]
      exact hbuilds .firstKey [] none stack (.inr rfl)

/-- What is written of a document is read as its tree. -/
theorem WrittenAs.ofText?_render {doc : Json} {ts : List Token} (h : WrittenAs doc ts) :
    Document.ofText? (render doc) = some (Document.ofJson doc) := by
  have hscan : Token.scan (render doc) = some ts := by
    have hall := h.scans Token.scans_nil
    rw [List.append_nil, List.append_nil] at hall
    exact hall _ (Nat.le_refl _)
  rw [Document.ofText?, hscan]
  show Document.ofTokens? ts = _
  rw [Document.ofTokens?, Machine.start, h.builds .value [] trivial]
  rfl

end Wayfind.Json
