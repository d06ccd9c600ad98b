/-
Where a group ends.

The scan of a group counts the brackets that are open, and looks for them outside of strings and
escapes only.  Two facts about it need no grammar.  A group that was found closed is closed where
it is, whatever comes behind (`cutGroupAt_more`); and one that was not takes the whole text
(`left_of_unclosed`).

Group texts are what the count is meant for: an opening bracket, items, a closing bracket, where
an item may be a group text again (`GroupText`).  The scan takes an item as a whole however
many brackets are open around it (`Items.cut`), and so it takes just the one group text that is there
(`cutGroup_groupText`).  Of a group text that was cut short it finds no end: otherwise it would
have found the same end in the whole (`cutGroup_cutShort`).
-/
import Wayfind.Proofs.Selector.Closed

namespace Wayfind.Selector

variable {opening closing quote c : Char} {cs rest body : List Char} {depth : Nat}

/-- What opens and closes groups: two characters of a single byte, neither of which is a quote or a
backslash. -/
structure Delimiters (opening closing : Char) : Prop where
  opening_ascii : opening.utf8Size = 1
  closing_ascii : closing.utf8Size = 1
  opening_not_quote : isQuote opening = false
  closing_not_quote : isQuote closing = false
  opening_ne_escape : opening ≠ '\\'
  closing_ne_escape : closing ≠ '\\'
  closing_ne_opening : closing ≠ opening

theorem delimiters_square : Delimiters '[' ']' := by constructor <;> decide

theorem delimiters_round : Delimiters '(' ')' := by constructor <;> decide

/-! ### Cuts -/

/-- Within a group a string is cut off as it is outside. -/
theorem cutGroupAt_string (quote : Char) (depth : Nat) (cs : List Char) :
    cutGroupAt opening closing (some quote) depth cs =
      (cutGroupAt opening closing none depth (cutString quote cs).2).prepend (cutString quote cs).1 := by
  fun_induction cutString quote cs with
  | case1 => rfl
  | case2 c cs taken left hcut ih =>
    rw [hcut] at ih
    rw [cutGroupAt, ih]
    rfl
  | case3 cs halone =>
    rw [cutGroupAt, if_pos rfl]
    · rfl
    · exact halone
  | case4 c cs halone hne taken left hcut ih =>
    rw [hcut] at ih
    rw [cutGroupAt, if_neg hne, ih]
    · rfl
    · exact halone

/-- Outside of strings it depends on the character, unless it is a backslash that takes another along. -/
theorem cutGroupAt_outside (halone : ∀ d tail, c = '\\' → rest = d :: tail → False) (depth : Nat) :
    cutGroupAt opening closing none depth (c :: rest) =
      if isQuote c then (cutGroupAt opening closing (some c) depth rest).push c
      else if c = opening then (cutGroupAt opening closing none (depth + 1) rest).push c
      else if c = closing then
        if depth ≤ 1 then ⟨[c], rest, true⟩
        else (cutGroupAt opening closing none (depth - 1) rest).push c
      else (cutGroupAt opening closing none depth rest).push c :=
  cutGroupAt.eq_4 opening closing depth c rest halone

/-- A backslash at the end of the text has nothing to take along. -/
theorem cutGroupAt_alone (hopening : opening ≠ '\\') (hclosing : closing ≠ '\\') (depth : Nat) :
    cutGroupAt opening closing none depth ['\\'] = ⟨['\\'], [], false⟩ := by
  rw [cutGroupAt_outside (fun _ _ _ hrest => List.cons_ne_nil _ _ hrest.symm), if_neg (by decide),
    if_neg hopening.symm, if_neg hclosing.symm]
  rfl

/-- A group that is not closed takes all of the text. -/
theorem left_of_unclosed (quote : Option Char) (depth : Nat) (cs : List Char)
    (h : (cutGroupAt opening closing quote depth cs).closed = false) :
    (cutGroupAt opening closing quote depth cs).left = [] := by
  fun_induction cutGroupAt opening closing quote depth cs with
  | case1 => rfl
  | case2 quote depth c rest ih => exact ih h
  | case3 quote depth c rest halone ih => exact ih h
  | case4 depth c rest halone hquote ih => exact ih h
  | case5 depth rest halone hquote ih => exact ih h
  | case6 depth rest hdepth halone => exact absurd h.symm Bool.false_ne_true
  | case7 depth rest hdepth halone hquote hne ih => exact ih h
  | case8 depth c rest halone hquote hopening hclosing ih => exact ih h

theorem exists_concat_cons (c : Char) (h : ∃ body, cs = body ++ [closing]) :
    ∃ body, c :: cs = body ++ [closing] := by
  obtain ⟨body, rfl⟩ := h
  exact ⟨c :: body, rfl⟩

/-- One that is closed ends with the closing bracket. -/
theorem last_of_closed (quote : Option Char) (depth : Nat) (cs : List Char)
    (h : (cutGroupAt opening closing quote depth cs).closed = true) :
    ∃ body, (cutGroupAt opening closing quote depth cs).taken = body ++ [closing] := by
  fun_induction cutGroupAt opening closing quote depth cs with
  | case1 => exact absurd h Bool.false_ne_true
  | case2 quote depth c rest ih => exact exists_concat_cons _ (exists_concat_cons c (ih h))
  | case3 quote depth c rest halone ih => exact exists_concat_cons c (ih h)
  | case4 depth c rest halone hquote ih => exact exists_concat_cons c (ih h)
  | case5 depth rest halone hquote ih => exact exists_concat_cons opening (ih h)
  | case6 depth rest hdepth halone => exact ⟨[], rfl⟩
  | case7 depth rest hdepth halone hquote hne ih => exact exists_concat_cons closing (ih h)
  | case8 depth c rest halone hquote hopening hclosing ih => exact exists_concat_cons c (ih h)

/-- The group a text starts with ends with its closing bracket, or it is all of the text. -/
theorem cutGroup_cases (hdelimiters : Delimiters opening closing) (rest : List Char) :
    (∃ body left, rest = body ++ closing :: left ∧
      cutGroup opening closing (opening :: rest) = ⟨opening :: (body ++ [closing]), left, true⟩) ∨
    cutGroup opening closing (opening :: rest) = ⟨opening :: rest, [], false⟩ := by
  have happend := cutGroupAt_append opening closing none 1 rest
  rw [cutGroup_cons _ _ hdelimiters.opening_not_quote hdelimiters.opening_ne_escape]
  generalize hcut : cutGroupAt opening closing none 1 rest = cut at happend
  obtain ⟨taken, left, closed⟩ := cut
  cases closed with
  | true =>
    obtain ⟨body, hbody⟩ := last_of_closed none 1 rest (congrArg GroupCut.closed hcut)
    rw [hcut] at hbody
    obtain rfl : taken = body ++ [closing] := hbody
    refine .inl ⟨body, left, ?_, rfl⟩
    rw [← happend]
    simp
  | false =>
    have hleft := left_of_unclosed none 1 rest (congrArg GroupCut.closed hcut)
    rw [hcut] at hleft
    obtain rfl : left = [] := hleft
    obtain rfl : taken = rest := by rwa [List.append_nil] at happend
    exact .inr rfl

/-- In front of a group that is closed stands no backslash that is alone. -/
theorem alone_append {quote : Option Char} (halone : ∀ d tail, c = '\\' → rest = d :: tail → False)
    (h : (cutGroupAt opening closing quote depth rest).closed = true) (more : List Char) :
    ∀ d tail, c = '\\' → rest ++ more = d :: tail → False := by
  intro d tail hc _
  cases rest with
  | nil =>
    rw [cutGroupAt] at h
    exact absurd h Bool.false_ne_true
  | cons e rest => exact halone e rest hc rfl

/-- The cut with more text behind. -/
def GroupCut.extend (cut : GroupCut) (more : List Char) : GroupCut :=
  { cut with left := cut.left ++ more }

/-- A group that is closed is closed in the same place when more text comes behind. -/
theorem cutGroupAt_more (hescape : closing ≠ '\\') (quote : Option Char) (depth : Nat)
    (cs more : List Char) (h : (cutGroupAt opening closing quote depth cs).closed = true) :
    cutGroupAt opening closing quote depth (cs ++ more) =
      (cutGroupAt opening closing quote depth cs).extend more := by
  fun_induction cutGroupAt opening closing quote depth cs with
  | case1 => exact absurd h Bool.false_ne_true
  | case2 quote depth c rest ih =>
    rw [List.cons_append, List.cons_append, cutGroupAt, ih h]
    rfl
  | case3 quote depth c rest halone ih =>
    rw [List.cons_append, cutGroupAt.eq_3 _ _ _ _ _ _ (alone_append halone h more), ih h]
    rfl
  | case4 depth c rest halone hquote ih =>
    rw [List.cons_append, cutGroupAt_outside (alone_append halone h more), if_pos hquote, ih h]
    rfl
  | case5 depth rest halone hquote ih =>
    rw [List.cons_append, cutGroupAt_outside (alone_append halone h more), if_neg hquote, if_pos rfl,
      ih h]
    rfl
  | case6 depth rest hdepth halone hquote hne =>
    rw [List.cons_append, cutGroupAt_outside (fun _ _ hc _ => hescape hc), if_neg hquote, if_neg hne,
      if_pos rfl, if_pos hdepth]
    rfl
  | case7 depth rest hdepth halone hquote hne ih =>
    rw [List.cons_append, cutGroupAt_outside (alone_append halone h more), if_neg hquote, if_neg hne,
      if_pos rfl, if_neg hdepth, ih h]
    rfl
  | case8 depth c rest halone hquote hopening hclosing ih =>
    rw [List.cons_append, cutGroupAt_outside (alone_append halone h more), if_neg hquote,
      if_neg hopening, if_neg hclosing, ih h]
    rfl

/-! ### Group texts -/

mutual

/-- Brackets around items. -/
inductive GroupText (opening closing : Char) : List Char → Prop where
  | brackets {body : List Char} (hbody : Items opening closing body) :
      GroupText opening closing (opening :: (body ++ [closing]))

/-- Texts in which each item is a group text, a quoted string, an escape, or a character that is
neither bracket, quote nor backslash. -/
inductive Items (opening closing : Char) : List Char → Prop where
  | nil : Items opening closing []
  | group {group rest : List Char} (hgroup : GroupText opening closing group)
      (hrest : Items opening closing rest) : Items opening closing (group ++ rest)
  | string {quote : Char} (hquote : isQuote quote = true) {body rest : List Char}
      (hbody : StringEnd quote body) (hrest : Items opening closing rest) :
      Items opening closing (quote :: (body ++ rest))
  | escape (c : Char) {rest : List Char} (hrest : Items opening closing rest) :
      Items opening closing ('\\' :: c :: rest)
  | char {c : Char} (hquote : isQuote c = false) (hescape : c ≠ '\\') (hopening : c ≠ opening)
      (hclosing : c ≠ closing) {rest : List Char} (hrest : Items opening closing rest) :
      Items opening closing (c :: rest)

end

theorem GroupText.exists_cons {group : List Char} (h : GroupText opening closing group) :
    ∃ inner, group = opening :: inner := by
  cases h with
  | brackets hbody => exact ⟨_, rfl⟩

theorem brackets_append (opening closing : Char) (body rest : List Char) :
    opening :: (body ++ [closing]) ++ rest = opening :: (body ++ closing :: rest) := by simp

/-- Within a group, a bracket opens another. -/
theorem cutGroupAt_opening (hdelimiters : Delimiters opening closing) (depth : Nat) (rest : List Char) :
    cutGroupAt opening closing none depth (opening :: rest) =
      (cutGroupAt opening closing none (depth + 1) rest).push opening := by
  rw [cutGroupAt_outside (fun _ _ hc _ => hdelimiters.opening_ne_escape hc),
    if_neg (by simp [hdelimiters.opening_not_quote]), if_pos rfl]

/-- A bracket that closes one of several groups does not end the cut. -/
theorem cutGroupAt_inner (hdelimiters : Delimiters opening closing) (depth : Nat) (rest : List Char) :
    cutGroupAt opening closing none (depth + 2) (closing :: rest) =
      (cutGroupAt opening closing none (depth + 1) rest).push closing := by
  rw [cutGroupAt_outside (fun _ _ hc _ => hdelimiters.closing_ne_escape hc),
    if_neg (by simp [hdelimiters.closing_not_quote]), if_neg hdelimiters.closing_ne_opening, if_pos rfl,
    if_neg (by omega)]
  rfl

mutual

/-- A group text within a group is taken as a whole. -/
theorem GroupText.cut (hdelimiters : Delimiters opening closing) {group : List Char} (depth : Nat)
    (rest : List Char) : GroupText opening closing group →
    cutGroupAt opening closing none (depth + 1) (group ++ rest) =
      (cutGroupAt opening closing none (depth + 1) rest).prepend group
  | @GroupText.brackets _ _ body hbody => by
    rw [brackets_append, cutGroupAt_opening hdelimiters, hbody.cut hdelimiters, cutGroupAt_inner hdelimiters]
    simp [GroupCut.prepend, GroupCut.push]

/-- So are items, and the count is the same behind them. -/
theorem Items.cut (hdelimiters : Delimiters opening closing) {body : List Char} (depth : Nat)
    (rest : List Char) : Items opening closing body →
    cutGroupAt opening closing none (depth + 1) (body ++ rest) =
      (cutGroupAt opening closing none (depth + 1) rest).prepend body
  | .nil => rfl
  | .group hgroup hitems => by
    rw [List.append_assoc, hgroup.cut hdelimiters, hitems.cut hdelimiters]
    simp [GroupCut.prepend]
  | .string hquote hbody hitems => by
    have hescape := isQuote_ne_escape hquote
    rw [List.cons_append, List.append_assoc, cutGroupAt_outside (fun _ _ hc _ => hescape hc),
      if_pos hquote, cutGroupAt_closedString hescape hbody, hitems.cut hdelimiters]
    simp [GroupCut.prepend, GroupCut.push]
  | .escape c hitems => by
    rw [List.cons_append, List.cons_append, cutGroupAt, hitems.cut hdelimiters]
    rfl
  | .char hquote hescape hopening hclosing hitems => by
    rw [List.cons_append, cutGroupAt_cons _ _ hquote hescape hopening hclosing, hitems.cut hdelimiters]
    rfl

end

/-- The cut takes the group text that is there, and nothing behind it. -/
theorem cutGroup_groupText (hdelimiters : Delimiters opening closing) {group : List Char}
    (h : GroupText opening closing group) (rest : List Char) :
    cutGroup opening closing (group ++ rest) = ⟨group, rest, true⟩ := by
  cases h with
  | @brackets body hbody =>
    rw [brackets_append, cutGroup, cutGroupAt_opening hdelimiters, hbody.cut hdelimiters,
      cutGroupAt_closing _ _ hdelimiters.closing_not_quote hdelimiters.closing_ne_escape
        hdelimiters.closing_ne_opening]
    rfl

/-- In a group text that was cut short, no end is found. -/
theorem cutGroup_cutShort (hdelimiters : Delimiters opening closing) {short missing : List Char}
    (h : GroupText opening closing (short ++ missing)) (hmissing : missing ≠ []) :
    cutGroup opening closing short = ⟨short, [], false⟩ := by
  have happend := cutGroup_append opening closing short
  cases hclosed : (cutGroup opening closing short).closed with
  | true =>
    -- it would be the end of the whole group text, too, and there nothing is left behind it
    have hmore := cutGroupAt_more hdelimiters.closing_ne_escape none 0 short missing hclosed
    have hwhole := cutGroup_groupText hdelimiters h []
    rw [List.append_nil] at hwhole
    have hleft := congrArg GroupCut.left (hwhole.symm.trans hmore)
    exact absurd (List.append_eq_nil_iff.mp hleft.symm).2 hmissing
  | false =>
    have hleft : (cutGroup opening closing short).left = [] := left_of_unclosed none 0 short hclosed
    rw [hleft, List.append_nil] at happend
    calc cutGroup opening closing short
        = ⟨(cutGroup opening closing short).taken, (cutGroup opening closing short).left,
            (cutGroup opening closing short).closed⟩ := rfl
      _ = ⟨short, [], false⟩ := by rw [happend, hleft, hclosed]

end Wayfind.Selector
