/-
Values of accessible selectors that are written with backslashes.

Between quotes a value may stand with a backslash before each of its characters that is such a quote or
a backslash.  The reader then finds the end of the value, whatever the value is (`quotable_shield`), but it
takes the backslashes for a part of the value: what a group asks for is the text between its quotes, and
that is the value only if none of its characters had to be shielded (`ofText_shield`).
-/
import Wayfind.Proofs.Selector.Attributes

namespace Wayfind.Selector.Accessible

open Text (Spaced)

/-- The value with a backslash before every such quote and every backslash. -/
def shield (quote : Char) (value : List Char) : List Char :=
  value.flatMap fun c => if c = quote ∨ c = '\\' then ['\\', c] else [c]

variable {quote : Char}

theorem shield_cons (c : Char) (value : List Char) :
    shield quote (c :: value) =
      if c = quote ∨ c = '\\' then '\\' :: c :: shield quote value else c :: shield quote value := by
  rw [shield, List.flatMap_cons]
  split <;> rfl

/-- A shielded value may stand between its quotes, whatever it is. -/
theorem quotable_shield (hquote : IsQuote quote) (value : List Char) : Quotable quote (shield quote value) := by
  induction value with
  | nil => exact .nil
  | cons c value ih =>
    rw [shield_cons]
    split
    · rename_i hc
      refine .shielded ?_ ih
      rintro rfl
      rcases hquote with rfl | rfl <;> exact absurd hc (by decide)
    · rename_i hc
      rw [not_or] at hc
      exact .plain hc.1 hc.2 ih

theorem length_shield (quote : Char) (value : List Char) :
    (shield quote value).length = value.length + value.countP fun c => c = quote ∨ c = '\\' := by
  induction value with
  | nil => rfl
  | cons c value ih =>
    rw [shield_cons, List.countP_cons]
    by_cases hc : c = quote ∨ c = '\\'
    · simp only [hc, if_true, List.length_cons, ih, decide_true]
      omega
    · simp only [hc, if_false, List.length_cons, ih, decide_false, Bool.false_eq_true]
      omega

/-- A value is the same with and without a shield only if there is nothing to be shielded. -/
theorem shield_eq_self_iff {value : List Char} : shield quote value = value ↔ quote ∉ value ∧ '\\' ∉ value := by
  constructor
  · intro h
    have hcount : (value.countP fun c => c = quote ∨ c = '\\') = 0 := by
      have := length_shield quote value
      rw [h] at this
      omega
    have hplain : ∀ c ∈ value, ¬ (c = quote ∨ c = '\\') := by simpa using List.countP_eq_zero.1 hcount
    exact ⟨fun hmem => hplain quote hmem (Or.inl rfl), fun hmem => hplain '\\' hmem (Or.inr rfl)⟩
  · rintro ⟨hquote, hslash⟩
    induction value with
    | nil => rfl
    | cons c value ih =>
      rw [List.mem_cons, not_or] at hquote hslash
      rw [shield_cons, if_neg (not_or.2 ⟨Ne.symm hquote.1, Ne.symm hslash.1⟩), ih hquote.2 hslash.2]

/-! ### Spaces stay in order -/

theorem head?_shield (quote : Char) (value : List Char) :
    (shield quote value).head? = value.head? ∨ (shield quote value).head? = some '\\' := by
  cases value with
  | nil => exact Or.inl rfl
  | cons c value =>
    rw [shield_cons]
    split
    · exact Or.inr rfl
    · exact Or.inl rfl

theorem getLast?_shield (value : List Char) : (shield quote value).getLast? = value.getLast? := by
  induction value with
  | nil => rfl
  | cons c value ih =>
    have hlast : (shield quote (c :: value)).getLast? = (c :: shield quote value).getLast? := by
      rw [shield_cons]
      split
      · exact List.getLast?_cons_cons
      · rfl
    rw [hlast, List.getLast?_cons, List.getLast?_cons, ih]

theorem isChain_shield {value : List Char} (h : value.IsChain Text.Apart) :
    (shield quote value).IsChain Text.Apart := by
  induction value with
  | nil => exact .nil
  | cons c value ih =>
    rw [List.isChain_cons] at h
    have hnext : ∀ d ∈ (shield quote value).head?, Text.Apart c d := by
      intro d hd
      rcases head?_shield quote value with heq | heq
      · exact h.1 d (heq ▸ hd)
      · rw [heq, Option.mem_some_iff] at hd
        exact hd ▸ Text.apart_right c (by decide)
    have hrest : (c :: shield quote value).IsChain Text.Apart := List.isChain_cons.2 ⟨hnext, ih h.2⟩
    rw [shield_cons]
    split
    · exact List.isChain_cons.2 ⟨fun d _ => Text.apart_left (by decide) d, hrest⟩
    · exact hrest

/-- A shield puts no space into a value. -/
theorem spaced_shield {value : List Char} (h : Spaced value) : Spaced (shield quote value) where
  head := by
    rcases head?_shield quote value with heq | heq
    · rw [heq]
      exact h.head
    · rw [heq]
      decide
  last := by
    rw [getLast?_shield]
    exact h.last
  single := Text.isChain_apart_iff.1 (isChain_shield (Text.isChain_apart_iff.2 h.single))

/-! ### What a shielded value asks for -/

/-- A text that is one group with a shielded value, and nothing else. -/
def shielded (word : String) (quote : Char) (value : List Char) : List Char :=
  '[' :: (word.toList ++ '=' :: quote :: (shield quote value ++ [quote, ']']))

/-- The text, taken apart. -/
def shieldedSentence (word : String) (quote : Char) (value : List Char) : Sentence :=
  ⟨[], [(⟨word.toList, quote, shield quote value, [], [], [], []⟩, [])]⟩

theorem text_shieldedSentence (word : String) (value : List Char) :
    (shieldedSentence word quote value).text = shielded word quote value := by
  simp [shieldedSentence, shielded, Sentence.text, Attribute.text, Attribute.body]

theorem bare_shieldedSentence (word : String) (value : List Char) :
    (shieldedSentence word quote value).Bare where
  first := List.not_mem_nil
  gaps := by simp [shieldedSentence]

theorem written_shieldedSentence (hquote : IsQuote quote) {word : String} (hnonempty : word.toList ≠ [])
    (hword : word.toList.all Text.isWord = true) (value : List Char) :
    ∀ a ∈ (shieldedSentence word quote value).attributes, a.Written := by
  intro a ha
  obtain rfl := List.mem_singleton.1 ha
  exact
    { nonempty := hnonempty
      word := List.all_eq_true.1 hword
      quote := hquote
      value := quotable_shield hquote value
      beforeWord := nofun
      behindWord := nofun
      beforeValue := nofun
      behindValue := nofun }

section

variable (hquote : IsQuote quote) {value : List Char} (hvalue : Spaced value)

include hquote hvalue

theorem ofText_shielded_name (hsize : (String.ofList (shielded "name" quote value)).utf8ByteSize ≤ 10000) :
    ofText (String.ofList (shielded "name" quote value)) =
      .ok ⟨some (String.ofList (shield quote value)), none⟩ := by
  rw [← text_shieldedSentence] at hsize ⊢
  rw [Sentence.ofText_of_known (bare_shieldedSentence ..)
    (written_shieldedSentence hquote (by decide) (by decide) value) hsize
    (by simp [shieldedSentence, Sentence.attributes])]
  simp [shieldedSentence, Sentence.lastValue, Sentence.attributes,
    Text.squeeze_of_spaced (spaced_shield hvalue)]

theorem ofText_shielded_role (hsize : (String.ofList (shielded "role" quote value)).utf8ByteSize ≤ 10000) :
    ofText (String.ofList (shielded "role" quote value)) =
      .ok ⟨none, some (String.ofList (shield quote value))⟩ := by
  rw [← text_shieldedSentence] at hsize ⊢
  rw [Sentence.ofText_of_known (bare_shieldedSentence ..)
    (written_shieldedSentence hquote (by decide) (by decide) value) hsize
    (by simp [shieldedSentence, Sentence.attributes])]
  simp [shieldedSentence, Sentence.lastValue, Sentence.attributes, Sentence.plain, Text.squeeze_nil,
    Text.squeeze_of_spaced (spaced_shield hvalue)]

end

/-- A group with a shielded value asks for the shielded value, and this is the value itself only where
there was nothing to be shielded. -/
theorem ofText_shield (hquote : IsQuote quote) {value : List Char} (hvalue : Spaced value)
    (hname : (String.ofList (shielded "name" quote value)).utf8ByteSize ≤ 10000)
    (hrole : (String.ofList (shielded "role" quote value)).utf8ByteSize ≤ 10000) :
    ofText (String.ofList (shielded "name" quote value)) =
      .ok ⟨some (String.ofList (shield quote value)), none⟩ ∧
    ofText (String.ofList (shielded "role" quote value)) =
      .ok ⟨none, some (String.ofList (shield quote value))⟩ ∧
    (shield quote value = value ↔ quote ∉ value ∧ '\\' ∉ value) :=
  ⟨ofText_shielded_name hquote hvalue hname, ofText_shielded_role hquote hvalue hrole, shield_eq_self_iff⟩

/-- A name with a quotation in it. -/
theorem ofText_shield_quotation :
    ofText "[name=\"say \\\"hi\\\"\"]" = .ok ⟨some "say \\\"hi\\\"", none⟩ ∧
    ofText "[role=\"say \\\"hi\\\"\"]" = .ok ⟨none, some "say \\\"hi\\\""⟩ ∧
    shield '"' "say \"hi\"".toList ≠ "say \"hi\"".toList := by
  have hspaced : Spaced "say \"hi\"".toList := ⟨by decide, by decide, by decide⟩
  obtain ⟨hname, hrole, hself⟩ := ofText_shield (Or.inl rfl : IsQuote '"') hspaced (by decide) (by decide)
  exact ⟨hname, hrole, fun h => (hself.1 h).1 (by decide)⟩

/-- The name `a"b`, written with a shield, is not what is asked for. -/
theorem not_ofText_shield : Spaced "a\"b".toList ∧ '\n' ∉ "a\"b".toList ∧
    String.ofList (shielded "name" '"' "a\"b".toList) = "[name=\"a\\\"b\"]" ∧
    ofText "[name=\"a\\\"b\"]" ≠ .ok ⟨some "a\"b", none⟩ := by
  have hspaced : Spaced "a\"b".toList := ⟨by decide, by decide, by decide⟩
  have htext : String.ofList (shielded "name" '"' "a\"b".toList) = "[name=\"a\\\"b\"]" := by decide
  have hread := ofText_shielded_name (Or.inl rfl) hspaced (by decide)
  refine ⟨hspaced, by decide, htext, ?_⟩
  rw [← htext, hread]
  decide

end Wayfind.Selector.Accessible
