/-
Selectors by accessible name and role, as they are written.

A group is an opening bracket, a word, an equals sign, a value between quotes and a closing bracket,
with blanks wherever they may stand.  The reader recognizes a group exactly where one is written
(`cutGroup_eq_some_iff`): a word ends where no word character follows, and a value at the first quote
that no backslash shields, so there is one way only to take a group apart.  A text with groups in it,
whose other brackets all stand inside values, is therefore read as the groups and the text between them
(`Sentence.items_text`), and what it asks for can be said group by group (`ofText_sentence`).
-/
import Wayfind.Proofs.Selector.Fragments
import Wayfind.Proofs.Text.Spacing
import Wayfind.Selector.Accessible

namespace Wayfind.Selector.Accessible

open Text (Blank)

/-! ### Values -/

/-- A text that may stand between such quotes: its quotes are shielded by a backslash, and every backslash
shields a character, which is no newline. -/
inductive Quotable (quote : Char) : List Char → Prop
  | nil : Quotable quote []
  | plain {c : Char} {rest : List Char} (hquote : c ≠ quote) (hslash : c ≠ '\\') (h : Quotable quote rest) :
      Quotable quote (c :: rest)
  | shielded {c : Char} {rest : List Char} (hline : c ≠ '\n') (h : Quotable quote rest) :
      Quotable quote ('\\' :: c :: rest)

/-- A mark that opens and closes values. -/
def IsQuote (c : Char) : Prop := c = '"' ∨ c = '\''

instance (c : Char) : Decidable (IsQuote c) := inferInstanceAs (Decidable (_ ∨ _))

theorem IsQuote.ne_slash {quote : Char} (h : IsQuote quote) : quote ≠ '\\' := by
  rcases h with rfl | rfl <;> decide

theorem IsQuote.isBlank {quote : Char} (h : IsQuote quote) : Text.isBlank quote = false := by
  rcases h with rfl | rfl <;> decide

theorem quotable_of_notMem {quote : Char} {value : List Char} (hquote : quote ∉ value)
    (hslash : '\\' ∉ value) : Quotable quote value := by
  induction value with
  | nil => exact .nil
  | cons c rest ih =>
    rw [List.mem_cons, not_or] at hquote hslash
    exact .plain (Ne.symm hquote.1) (Ne.symm hslash.1) (ih hquote.2 hslash.2)

/-- A value ends at the quote that closes it. -/
theorem cutValue_append {quote : Char} (hquote : IsQuote quote) {value : List Char}
    (h : Quotable quote value) (rest : List Char) :
    cutValue quote (value ++ quote :: rest) = some (value, rest) := by
  induction h with
  | nil =>
    show cutValue quote (quote :: rest) = _
    rw [cutValue.eq_3 _ _ _ fun _ _ h _ => hquote.ne_slash h, if_pos rfl]
  | @plain c cs hc hslash _ ih =>
    show cutValue quote (c :: (cs ++ quote :: rest)) = _
    rw [cutValue.eq_3 _ _ _ fun _ _ h _ => hslash h, if_neg hc, if_neg hslash, ih]
    rfl
  | @shielded c cs hline _ ih =>
    show cutValue quote ('\\' :: c :: (cs ++ quote :: rest)) = _
    rw [cutValue, if_neg hline, ih]
    rfl

theorem quotable_of_cutValue {quote : Char} {cs value left : List Char}
    (h : cutValue quote cs = some (value, left)) : Quotable quote value ∧ cs = value ++ quote :: left := by
  fun_induction cutValue quote cs generalizing value left with
  | case1 => exact absurd h.symm (Option.some_ne_none _)
  | case2 => exact absurd h.symm (Option.some_ne_none _)
  | case3 c rest hline ih =>
    obtain ⟨⟨v, l⟩, hv, heq⟩ := Option.map_eq_some_iff.1 h
    cases heq
    obtain ⟨hquotable, hrest⟩ := ih hv
    exact ⟨.shielded hline hquotable, by rw [hrest]; rfl⟩
  | case4 rest =>
    cases h
    exact ⟨.nil, rfl⟩
  | case5 => exact absurd h.symm (Option.some_ne_none _)
  | case6 c rest _ hc hslash ih =>
    obtain ⟨⟨v, l⟩, hv, heq⟩ := Option.map_eq_some_iff.1 h
    cases heq
    obtain ⟨hquotable, hrest⟩ := ih hv
    exact ⟨.plain hc hslash hquotable, by rw [hrest]; rfl⟩

theorem cutQuoted_append {quote : Char} (hquote : IsQuote quote) {value : List Char}
    (h : Quotable quote value) (rest : List Char) :
    cutQuoted (quote :: (value ++ quote :: rest)) = some (value, rest) := by
  rcases hquote with rfl | rfl
  · exact cutValue_append (Or.inl rfl) h rest
  · exact cutValue_append (Or.inr rfl) h rest

theorem quotable_of_cutQuoted {cs value left : List Char} (h : cutQuoted cs = some (value, left)) :
    ∃ quote, IsQuote quote ∧ Quotable quote value ∧ cs = quote :: (value ++ quote :: left) := by
  unfold cutQuoted at h
  split at h
  · obtain ⟨hvalue, hcs⟩ := quotable_of_cutValue h
    exact ⟨'"', Or.inl rfl, hvalue, by rw [hcs]⟩
  · obtain ⟨hvalue, hcs⟩ := quotable_of_cutValue h
    exact ⟨'\'', Or.inr rfl, hvalue, by rw [hcs]⟩
  · exact absurd h nofun

/-! ### Groups -/

theorem cutMark_append {mark : Char} (hmark : Text.isBlank mark = false) {blanks : List Char}
    (hblanks : Blank blanks) (rest : List Char) : cutMark mark (blanks ++ mark :: rest) = some rest := by
  rw [cutMark, Text.trimStart_append hblanks hmark]
  exact if_pos rfl

theorem exists_of_cutMark {mark : Char} {cs left : List Char} (h : cutMark mark cs = some left) :
    ∃ blanks, Blank blanks ∧ cs = blanks ++ mark :: left := by
  obtain ⟨blanks, hblanks, hcs⟩ := Text.exists_trimStart cs
  refine ⟨blanks, hblanks, ?_⟩
  unfold cutMark at h
  split at h
  · rename_i c rest htrim
    split at h
    · rename_i hc
      cases h
      rw [hcs, htrim, hc]
    · exact absurd h nofun
  · exact absurd h nofun

/-- A group as it is written, with the blanks between its parts. -/
structure Attribute where
  word : List Char
  quote : Char
  value : List Char
  beforeWord : List Char
  behindWord : List Char
  beforeValue : List Char
  behindValue : List Char

namespace Attribute

/-- The text of a group behind its opening bracket. -/
def body (a : Attribute) : List Char :=
  a.beforeWord ++ (a.word ++ (a.behindWord ++ '=' ::
    (a.beforeValue ++ a.quote :: (a.value ++ a.quote :: (a.behindValue ++ [']'])))))

/-- The text of a group. -/
def text (a : Attribute) : List Char := '[' :: a.body

/-- The group that is written. -/
def group (a : Attribute) : Group := ⟨a.word, a.value⟩

/-- The parts of a group around its value are what they have to be. -/
structure Shaped (a : Attribute) : Prop where
  nonempty : a.word ≠ []
  word : ∀ c ∈ a.word, Text.isWord c = true
  quote : IsQuote a.quote
  beforeWord : Blank a.beforeWord
  behindWord : Blank a.behindWord
  beforeValue : Blank a.beforeValue
  behindValue : Blank a.behindValue

instance (a : Attribute) : Decidable a.Shaped :=
  decidable_of_iff
    (a.word ≠ [] ∧ a.word.all Text.isWord = true ∧ IsQuote a.quote ∧ Blank a.beforeWord ∧
      Blank a.behindWord ∧ Blank a.beforeValue ∧ Blank a.behindValue)
    ⟨fun ⟨nonempty, word, quote, h₁, h₂, h₃, h₄⟩ =>
        ⟨nonempty, List.all_eq_true.1 word, quote, h₁, h₂, h₃, h₄⟩,
      fun h => ⟨h.nonempty, List.all_eq_true.2 h.word, h.quote, h.beforeWord, h.behindWord, h.beforeValue,
        h.behindValue⟩⟩

/-- The value of a group may stand between its quotes, too. -/
structure Written (a : Attribute) : Prop extends Shaped a where
  value : Quotable a.quote a.value

end Attribute

/-- A word ends where no word character follows. -/
theorem takeWhile_word {word blanks : List Char} (hword : ∀ c ∈ word, Text.isWord c = true)
    (hblanks : Blank blanks) (rest : List Char) :
    (word ++ (blanks ++ '=' :: rest)).takeWhile Text.isWord = word ∧
      (word ++ (blanks ++ '=' :: rest)).dropWhile Text.isWord = blanks ++ '=' :: rest := by
  have hnext : ∃ c tail, blanks ++ '=' :: rest = c :: tail ∧ Text.isWord c = false := by
    cases blanks with
    | nil => exact ⟨_, _, rfl, by decide⟩
    | cons c tail => exact ⟨_, _, rfl, Text.isWord_of_isBlank (hblanks c List.mem_cons_self)⟩
  obtain ⟨c, tail, heq, hc⟩ := hnext
  rw [heq, List.takeWhile_append_of_pos hword, List.dropWhile_append_of_pos hword,
    List.takeWhile_cons_of_neg (by rw [hc]; exact Bool.false_ne_true),
    List.dropWhile_cons_of_neg (by rw [hc]; exact Bool.false_ne_true), List.append_nil]
  exact ⟨rfl, rfl⟩

theorem cutGroup_body {a : Attribute} (ha : a.Written) (rest : List Char) :
    cutGroup (a.body ++ rest) = some (a.group, rest) := by
  obtain ⟨c, word, hword⟩ := List.exists_cons_of_ne_nil ha.nonempty
  have hc : Text.isBlank c = false := Text.isBlank_of_isWord (ha.word c (hword ▸ List.mem_cons_self))
  have hbody : a.body ++ rest = a.beforeWord ++ (a.word ++ (a.behindWord ++ '=' :: (a.beforeValue ++
      a.quote :: (a.value ++ a.quote :: (a.behindValue ++ ']' :: rest))))) := by
    simp only [Attribute.body, List.append_assoc, List.cons_append, List.nil_append]
  have htrim : Text.trimStart (a.body ++ rest) = a.word ++ (a.behindWord ++ '=' :: (a.beforeValue ++
      a.quote :: (a.value ++ a.quote :: (a.behindValue ++ ']' :: rest)))) := by
    rw [hbody, hword]
    exact Text.trimStart_append ha.beforeWord hc _
  obtain ⟨htake, hdrop⟩ := takeWhile_word ha.word ha.behindWord
    (a.beforeValue ++ a.quote :: (a.value ++ a.quote :: (a.behindValue ++ ']' :: rest)))
  have hclose : cutMark ']' (a.behindValue ++ ']' :: rest) = some rest :=
    cutMark_append (by decide) ha.behindValue rest
  unfold cutGroup
  dsimp only
  rw [htrim, htake, hdrop, if_neg ha.nonempty, cutMark_append (by decide) ha.behindWord, Option.bind_eq_bind,
    Option.bind_some, Text.trimStart_append ha.beforeValue ha.quote.isBlank, cutQuoted_append ha.quote ha.value]
  simp only [Option.bind_eq_bind, Option.bind_some, hclose]
  rfl

/-- A group is recognized exactly where one is written. -/
theorem cutGroup_eq_some_iff {cs left : List Char} {g : Group} :
    cutGroup cs = some (g, left) ↔ ∃ a : Attribute, a.Written ∧ a.group = g ∧ cs = a.body ++ left := by
  constructor
  · intro h
    unfold cutGroup at h
    dsimp only at h
    split at h
    · exact absurd h nofun
    rename_i hword
    obtain ⟨behind, hmark, h⟩ := Option.bind_eq_some_iff.1 h
    obtain ⟨⟨value, last⟩, hvalue, h⟩ := Option.bind_eq_some_iff.1 h
    obtain ⟨rest, hclose, h⟩ := Option.bind_eq_some_iff.1 h
    cases h
    obtain ⟨beforeWord, hbeforeWord, hcs⟩ := Text.exists_trimStart cs
    obtain ⟨behindWord, hbehindWord, hdrop⟩ := exists_of_cutMark hmark
    obtain ⟨beforeValue, hbeforeValue, hbehind⟩ := Text.exists_trimStart behind
    obtain ⟨quote, hquote, hquotable, htrim⟩ := quotable_of_cutQuoted hvalue
    obtain ⟨behindValue, hbehindValue, rfl⟩ : ∃ blanks, Blank blanks ∧ last = blanks ++ ']' :: left :=
      exists_of_cutMark hclose
    refine ⟨⟨_, quote, value, beforeWord, behindWord, beforeValue, behindValue⟩,
      ⟨⟨hword, fun c hc => List.mem_takeWhile_imp hc, hquote, hbeforeWord, hbehindWord, hbeforeValue,
        hbehindValue⟩, hquotable⟩, rfl, ?_⟩
    have hwhole := List.takeWhile_append_dropWhile (p := Text.isWord) (l := Text.trimStart cs)
    rw [hdrop, hbehind, htrim] at hwhole
    simp only [Attribute.body, List.append_assoc, List.cons_append, List.nil_append]
    rw [hwhole]
    exact hcs
  · rintro ⟨a, ha, rfl, rfl⟩
    exact cutGroup_body ha left

/-! ### Texts with groups in them -/

theorem items_nil : items [] = [] := by rw [items]

theorem items_cons {c : Char} (hc : c ≠ '[') (cs : List Char) : items (c :: cs) = .char c :: items cs := by
  rw [items, if_neg hc]

/-- Text without an opening bracket is text. -/
theorem items_append {cs : List Char} (hcs : '[' ∉ cs) (rest : List Char) :
    items (cs ++ rest) = cs.map .char ++ items rest := by
  induction cs with
  | nil => rfl
  | cons c cs ih =>
    rw [List.mem_cons, not_or] at hcs
    rw [List.cons_append, items_cons (Ne.symm hcs.1), ih hcs.2]
    rfl

/-- A group is read where it is written, whatever stands behind it. -/
theorem items_attribute {a : Attribute} (ha : a.Written) (rest : List Char) :
    items (a.text ++ rest) = .group a.group :: items rest := by
  show items ('[' :: (a.body ++ rest)) = _
  rw [items, if_pos rfl]
  split
  · rename_i g left hcut
    rw [cutGroup_body ha rest] at hcut
    cases hcut
    rfl
  · rename_i hcut
    rw [cutGroup_body ha rest] at hcut
    exact absurd hcut (Option.some_ne_none _)

/-- A text with groups in it: what stands before the first of them, and every group with what stands
between it and the next. -/
structure Sentence where
  first : List Char
  rest : List (Attribute × List Char)

namespace Sentence

/-- The text as it is written. -/
def text (s : Sentence) : List Char := s.first ++ s.rest.flatMap fun (a, gap) => a.text ++ gap

/-- The groups, in order. -/
def attributes (s : Sentence) : List Attribute := s.rest.map Prod.fst

/-- The text outside the groups. -/
def plain (s : Sentence) : List Char := s.first ++ s.rest.flatMap Prod.snd

/-- No opening bracket stands outside the groups. -/
structure Bare (s : Sentence) : Prop where
  first : '[' ∉ s.first
  gaps : ∀ part ∈ s.rest, '[' ∉ part.2

/-- The value of the last group with such a word. -/
def lastValue (s : Sentence) (word : String) : Option (List Char) :=
  (s.attributes.filter (·.word = word.toList)).getLast?.map (·.value)

/-- The groups and the text between them are what is read. -/
theorem items_text {s : Sentence} (hbare : s.Bare) (hwritten : ∀ a ∈ s.attributes, a.Written) :
    items s.text = s.first.map .char ++ s.rest.flatMap fun (a, gap) => .group a.group :: gap.map .char := by
  obtain ⟨first, rest⟩ := s
  rw [text, items_append hbare.first]
  congr 1
  have hgaps := hbare.gaps
  clear hbare
  induction rest with
  | nil => exact items_nil
  | cons part rest ih =>
    obtain ⟨a, gap⟩ := part
    have ha : a.Written := hwritten a List.mem_cons_self
    have hgap : '[' ∉ gap := hgaps (a, gap) List.mem_cons_self
    rw [List.flatMap_cons, List.flatMap_cons, List.append_assoc, items_attribute ha, items_append hgap,
      ih (fun b hb => hwritten b (List.mem_cons_of_mem _ hb)) fun part hpart =>
        hgaps part (List.mem_cons_of_mem _ hpart)]
    rfl

theorem groups_char (cs : List Char) : groups (cs.map .char) = [] := by
  induction cs with
  | nil => rfl
  | cons c cs ih => exact ih

theorem outside_char (cs : List Char) : outside (cs.map .char) = cs := by
  induction cs with
  | nil => rfl
  | cons c cs ih => exact congrArg (c :: ·) ih

theorem groups_text {s : Sentence} (hbare : s.Bare) (hwritten : ∀ a ∈ s.attributes, a.Written) :
    groups (items s.text) = s.attributes.map Attribute.group := by
  rw [items_text hbare hwritten, groups, List.filterMap_append, ← groups, groups_char, List.nil_append,
    attributes]
  clear hbare hwritten
  induction s.rest with
  | nil => rfl
  | cons part rest ih =>
    rw [List.flatMap_cons, List.cons_append, List.filterMap_cons, List.filterMap_append, ← groups, groups_char,
      List.nil_append, ih]
    rfl

theorem outside_text {s : Sentence} (hbare : s.Bare) (hwritten : ∀ a ∈ s.attributes, a.Written) :
    outside (items s.text) = s.plain := by
  rw [items_text hbare hwritten, outside, List.filterMap_append, ← outside, outside_char, plain]
  congr 1
  clear hbare hwritten
  induction s.rest with
  | nil => rfl
  | cons part rest ih =>
    rw [List.flatMap_cons, List.cons_append, List.filterMap_cons, List.filterMap_append, ← outside, outside_char,
      ih]
    rfl

/-- The value that counts is that of the last group with its word. -/
theorem valueOf_group (s : Sentence) (word : String) :
    valueOf word (s.attributes.map Attribute.group) =
      (s.lastValue word).map fun value => String.ofList (Text.squeeze value) := by
  rw [valueOf, lastValue, ← List.head?_filter, List.filter_reverse, List.head?_reverse, List.filter_map,
    List.getLast?_map, Option.map_map, Option.map_map]
  simp only [Function.comp_def, Attribute.group, Text.normalize_eq_squeeze]
  rfl

theorem isKnown_group (a : Attribute) :
    isKnown a.group.key = true ↔ a.word = "name".toList ∨ a.word = "role".toList := by
  rw [isKnown, Bool.or_eq_true, decide_eq_true_iff, decide_eq_true_iff]
  rfl

variable {s : Sentence} (hbare : s.Bare) (hwritten : ∀ a ∈ s.attributes, a.Written)
  (hsize : (String.ofList s.text).utf8ByteSize ≤ 10000)

include hbare hwritten hsize

theorem ofText_text :
    ofText (String.ofList s.text) =
      match (s.attributes.map Attribute.group).find? (!isKnown ·.key) with
      | some g => .error (.invalidSelector
          ("Unknown aria attribute \"" ++ String.ofList g.key ++ "\" in selector"))
      | none => .ok ⟨(valueOf "name" (s.attributes.map Attribute.group)).or (outsideName (items s.text)),
          valueOf "role" (s.attributes.map Attribute.group)⟩ := by
  unfold ofText
  rw [if_neg (by rw [maxBytes]; omega), String.toList_ofList]
  dsimp only
  rewrite [groups_text hbare hwritten]
  rfl

/-- The first group that asks for neither a name nor a role is an error. -/
theorem ofText_of_unknown {before after : List Attribute} {a : Attribute}
    (hsplit : s.attributes = before ++ a :: after)
    (hbefore : ∀ b ∈ before, b.word = "name".toList ∨ b.word = "role".toList)
    (hword : ¬ (a.word = "name".toList ∨ a.word = "role".toList)) :
    ofText (String.ofList s.text) = .error (.invalidSelector
      ("Unknown aria attribute \"" ++ String.ofList a.word ++ "\" in selector")) := by
  have hfind : (s.attributes.map Attribute.group).find? (!isKnown ·.key) = some a.group := by
    rw [hsplit, List.map_append, List.map_cons]
    refine List.find?_eq_some_iff_append.2 ⟨?_, _, _, rfl, fun g hg => ?_⟩
    · rw [Bool.not_eq_true', ← Bool.not_eq_true, isKnown_group]
      exact hword
    · obtain ⟨b, hb, rfl⟩ := List.mem_map.1 hg
      rw [Bool.not_not, isKnown_group]
      exact hbefore b hb
  rw [ofText_text hbare hwritten hsize, hfind]
  rfl

/-- Groups that ask for names and roles are read, and with them the text outside. -/
theorem ofText_of_known (hknown : ∀ a ∈ s.attributes, a.word = "name".toList ∨ a.word = "role".toList) :
    ofText (String.ofList s.text) = .ok
      { name := match s.lastValue "name" with
          | some value => some (String.ofList (Text.squeeze value))
          | none => if Text.squeeze s.plain = [] then none else some (String.ofList (Text.squeeze s.plain))
        role := (s.lastValue "role").map fun value => String.ofList (Text.squeeze value) } := by
  have hfind : (s.attributes.map Attribute.group).find? (!isKnown ·.key) = none := by
    refine List.find?_eq_none.2 fun g hg => ?_
    obtain ⟨b, hb, rfl⟩ := List.mem_map.1 hg
    rw [Bool.not_eq_true', Bool.not_eq_false, isKnown_group]
    exact hknown b hb
  rw [ofText_text hbare hwritten hsize, hfind]
  dsimp only
  rw [outsideName, outside_text hbare hwritten, Text.normalize_eq_squeeze, valueOf_group, valueOf_group]
  cases s.lastValue "name" <;> rfl

end Sentence

/-- What a text with groups in it asks for: the value of the last group for the role, that of the last
group for the name, and for want of one the text outside the groups, each with its spaces squeezed.
A group with another word is an error, which tells the first such word. -/
theorem ofText_sentence {s : Sentence} (hbare : s.Bare) (hshaped : ∀ a ∈ s.attributes, a.Shaped)
    (hvalue : ∀ a ∈ s.attributes, a.quote ∉ a.value ∧ '\\' ∉ a.value)
    (hsize : (String.ofList s.text).utf8ByteSize ≤ 10000) :
    (∀ before a after, s.attributes = before ++ a :: after →
      (∀ b ∈ before, b.word = "name".toList ∨ b.word = "role".toList) →
      ¬ (a.word = "name".toList ∨ a.word = "role".toList) →
      ofText (String.ofList s.text) = .error (.invalidSelector
        ("Unknown aria attribute \"" ++ String.ofList a.word ++ "\" in selector"))) ∧
    ((∀ a ∈ s.attributes, a.word = "name".toList ∨ a.word = "role".toList) →
      ofText (String.ofList s.text) = .ok
        { name := match s.lastValue "name" with
            | some value => some (String.ofList (Text.squeeze value))
            | none => if Text.squeeze s.plain = [] then none else some (String.ofList (Text.squeeze s.plain))
          role := (s.lastValue "role").map fun value => String.ofList (Text.squeeze value) }) := by
  have hwritten : ∀ a ∈ s.attributes, a.Written := fun a ha =>
    ⟨hshaped a ha, quotable_of_notMem (hvalue a ha).1 (hvalue a ha).2⟩
  exact ⟨fun _ _ _ => Sentence.ofText_of_unknown hbare hwritten hsize,
    Sentence.ofText_of_known hbare hwritten hsize⟩

/-- A role whose value has a whole group in it, between two stretches of the name. -/
def Sentence.nested : Sentence :=
  ⟨" Save  ".toList, [(⟨"role".toList, '\'', "item  [name=\"x\"] ".toList, [], " ".toList, "\n".toList, []⟩,
    " all".toList)]⟩

/-- Two groups that ask for what cannot be asked for. -/
def Sentence.unknown : Sentence :=
  ⟨[], [(⟨"name".toList, '"', "Save".toList, [], [], [], []⟩, []),
    (⟨"level".toList, '"', "2".toList, [], [], [], []⟩, []), (⟨"kind".toList, '"', [], [], [], [], []⟩, [])]⟩

theorem ofText_sentence_nested :
    ofText " Save  [role =\n'item  [name=\"x\"] '] all" = .ok ⟨some "Save all", some "item [name=\"x\"]"⟩ ∧
    ofText "[name=\"Save\"][level=\"2\"][kind=\"\"]" =
      .error (.invalidSelector "Unknown aria attribute \"level\" in selector") := by
  refine ⟨?_, ?_⟩
  · exact (ofText_sentence (s := .nested) ⟨by decide, by decide⟩ (by decide) (by decide) (by decide)).2
      (by decide)
  · exact (ofText_sentence (s := .unknown) ⟨by decide, by decide⟩ (by decide) (by decide) (by decide)).1
      [⟨"name".toList, '"', "Save".toList, [], [], [], []⟩] _ _ rfl (by decide) (by decide)

end Wayfind.Selector.Accessible
