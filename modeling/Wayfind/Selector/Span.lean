/-
Spans of selector text in which separators mean nothing.

A backslash takes the character behind it along, a quoted string runs to its closing
quote, a group to the bracket that closes it; strings and escapes inside a group hide
the brackets they hold.  A span that is never closed runs to the end of the text.
Each scan cuts the text in two, and its pieces put together are the text again.
-/

namespace Wayfind.Selector

/-- Cuts a text behind the quote that closes a string; the text starts inside the string. -/
def cutString (quote : Char) : List Char → List Char × List Char
  | [] => ([], [])
  | '\\' :: c :: rest =>
    let (taken, left) := cutString quote rest
    ('\\' :: c :: taken, left)
  | c :: rest =>
    if c = quote then ([c], rest)
    else
      let (taken, left) := cutString quote rest
      (c :: taken, left)

/-- A text cut behind a group, and whether the group was closed. -/
structure GroupCut where
  taken : List Char
  left : List Char
  closed : Bool
deriving DecidableEq, Repr

/-- The cut with a character more in front. -/
def GroupCut.push (c : Char) (cut : GroupCut) : GroupCut :=
  { cut with taken := c :: cut.taken }

/-- The character starts a string. -/
def isQuote (c : Char) : Bool := c = '"' || c = '\''

/-- Cuts a text behind the group that is open `depth` deep, inside a string when `quote` is given. -/
def cutGroupAt (opening closing : Char) : Option Char → Nat → List Char → GroupCut
  | _, _, [] => ⟨[], [], false⟩
  | quote, depth, '\\' :: c :: rest =>
    ((cutGroupAt opening closing quote depth rest).push c).push '\\'
  | some quote, depth, c :: rest =>
    (cutGroupAt opening closing (if c = quote then none else some quote) depth rest).push c
  | none, depth, c :: rest =>
    if isQuote c then (cutGroupAt opening closing (some c) depth rest).push c
    else if c = opening then (cutGroupAt opening closing none (depth + 1) rest).push c
    else if c = closing then
      if depth ≤ 1 then ⟨[c], rest, true⟩
      else (cutGroupAt opening closing none (depth - 1) rest).push c
    else (cutGroupAt opening closing none depth rest).push c

/-- Cuts a text that starts with an opening bracket behind the group it opens. -/
def cutGroup (opening closing : Char) (cs : List Char) : GroupCut :=
  cutGroupAt opening closing none 0 cs

/-- The text with each escape replaced by the character it stands for. -/
def unescape : List Char → List Char
  | [] => []
  | '\\' :: c :: rest => c :: unescape rest
  | c :: rest => if c = '\\' then unescape rest else c :: unescape rest

/-- The text between matching outer quotes, or the text itself. -/
def stripQuotes : List Char → List Char
  | q :: rest => if isQuote q && rest.getLast? == some q then rest.dropLast else q :: rest
  | [] => []

/-- The value of an argument: outer quotes are stripped, escapes resolved. -/
def unquote (cs : List Char) : List Char := unescape (stripQuotes cs)

/-! ### Cutting loses nothing -/

theorem cutString_append (quote : Char) (cs : List Char) :
    (cutString quote cs).1 ++ (cutString quote cs).2 = cs := by
  fun_induction cutString quote cs <;> simp_all

@[simp] theorem GroupCut.push_taken (c : Char) (cut : GroupCut) :
    (cut.push c).taken = c :: cut.taken := rfl

@[simp] theorem GroupCut.push_left (c : Char) (cut : GroupCut) :
    (cut.push c).left = cut.left := rfl

theorem cutGroupAt_append (opening closing : Char) (quote : Option Char) (depth : Nat)
    (cs : List Char) :
    (cutGroupAt opening closing quote depth cs).taken ++
      (cutGroupAt opening closing quote depth cs).left = cs := by
  fun_induction cutGroupAt opening closing quote depth cs <;> simp_all

/-- A cut of a text that is not empty takes something. -/
theorem cutGroupAt_taken_ne_nil (opening closing : Char) (quote : Option Char) (depth : Nat)
    {cs : List Char} (h : cs ≠ []) : (cutGroupAt opening closing quote depth cs).taken ≠ [] := by
  fun_cases cutGroupAt opening closing quote depth cs <;> simp_all

theorem cutGroup_append (opening closing : Char) (cs : List Char) :
    (cutGroup opening closing cs).taken ++ (cutGroup opening closing cs).left = cs :=
  cutGroupAt_append opening closing none 0 cs

end Wayfind.Selector
