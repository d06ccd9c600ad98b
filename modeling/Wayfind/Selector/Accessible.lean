/-
Selectors by accessible name and role.

The text is a name with groups `[attribute="value"]` in between.  A group names the
role or the accessible name; the text outside all groups is the name unless a group
gave one.  In a value a backslash shields the character behind it, and is kept.  What
looks like a group but is not one is text.
-/
import Wayfind.Error
import Wayfind.Text.Blank
import Wayfind.Text.Split
import Wayfind.Text.Word

namespace Wayfind.Selector

/-- What to look for in the accessibility tree. -/
structure Accessible where
  name : Option String
  role : Option String
deriving DecidableEq, Repr

namespace Accessible

/-- The longest text that is read, in bytes. -/
def maxBytes : Nat := 10000

/-- The value up to its closing quote, and the text behind the quote. -/
def cutValue (quote : Char) : List Char → Option (List Char × List Char)
  | [] => none
  | '\\' :: c :: rest =>
    if c = '\n' then none
    else (cutValue quote rest).map fun (value, left) => ('\\' :: c :: value, left)
  | c :: rest =>
    if c = quote then some ([], rest)
    else if c = '\\' then none
    else (cutValue quote rest).map fun (value, left) => (c :: value, left)

/-- The quoted value a text starts with. -/
def cutQuoted : List Char → Option (List Char × List Char)
  | '"' :: rest => cutValue '"' rest
  | '\'' :: rest => cutValue '\'' rest
  | _ => none

/-- The text behind a character it has to start with, blanks around it left out. -/
def cutMark (mark : Char) (cs : List Char) : Option (List Char) :=
  match Text.trimStart cs with
  | c :: rest => if c = mark then some rest else none
  | [] => none

/-- A group: an attribute, by its key, and its value. -/
structure Group where
  key : List Char
  value : List Char
deriving DecidableEq, Repr

/-- The group a text starts with, behind its opening bracket. -/
def cutGroup (cs : List Char) : Option (Group × List Char) := do
  let cs := Text.trimStart cs
  let word := cs.takeWhile Text.isWord
  if word = [] then none
  else do
    let cs ← cutMark '=' (cs.dropWhile Text.isWord)
    let (value, cs) ← cutQuoted (Text.trimStart cs)
    let cs ← cutMark ']' cs
    return (⟨word, value⟩, cs)

/-! ### Behind a group less text is left -/

theorem trimStart_length_le (cs : List Char) : (Text.trimStart cs).length ≤ cs.length :=
  (List.dropWhile_suffix _).length_le

theorem cutValue_length_lt {quote : Char} {cs value left : List Char}
    (h : cutValue quote cs = some (value, left)) : left.length < cs.length := by
  fun_induction cutValue quote cs generalizing value left with
  | case1 => simp at h
  | case2 => simp at h
  | case3 c rest _ ih =>
    obtain ⟨⟨v, l⟩, hv, heq⟩ := Option.map_eq_some_iff.1 h
    cases heq
    have := ih hv
    simp only [List.length_cons]
    omega
  | case4 rest => cases h; simp
  | case5 => simp at h
  | case6 c rest _ _ _ ih =>
    obtain ⟨⟨v, l⟩, hv, heq⟩ := Option.map_eq_some_iff.1 h
    cases heq
    have := ih hv
    simp only [List.length_cons]
    omega

theorem cutQuoted_length_le {cs value left : List Char}
    (h : cutQuoted cs = some (value, left)) : left.length ≤ cs.length := by
  unfold cutQuoted at h
  split at h
  · have := cutValue_length_lt h
    simp only [List.length_cons]
    omega
  · have := cutValue_length_lt h
    simp only [List.length_cons]
    omega
  · simp at h

theorem cutMark_length_le {mark : Char} {cs left : List Char} (h : cutMark mark cs = some left) :
    left.length ≤ cs.length := by
  unfold cutMark at h
  split at h
  · rename_i c rest heq
    split at h
    · cases h
      have := trimStart_length_le cs
      rw [heq, List.length_cons] at this
      omega
    · simp at h
  · simp at h

theorem cutGroup_length_le {cs left : List Char} {g : Group} (h : cutGroup cs = some (g, left)) :
    left.length ≤ cs.length := by
  unfold cutGroup at h
  dsimp only at h
  split at h
  · simp at h
  · obtain ⟨a, ha, h⟩ := Option.bind_eq_some_iff.1 h
    obtain ⟨b, hb, h⟩ := Option.bind_eq_some_iff.1 h
    obtain ⟨c, hc, h⟩ := Option.bind_eq_some_iff.1 h
    cases h
    have h1 := trimStart_length_le cs
    have h2 := (List.dropWhile_suffix Text.isWord (l := Text.trimStart cs)).length_le
    have h3 := cutMark_length_le ha
    have h4 := trimStart_length_le a
    have h5 := @cutQuoted_length_le _ b.1 b.2 hb
    have h6 := cutMark_length_le hc
    omega

/-- A stretch of an accessible selector: a character of the name, or a group. -/
inductive Item where
  | char (c : Char)
  | group (g : Group)
deriving DecidableEq, Repr

/-- The characters and groups of a text. -/
def items : List Char → List Item
  | [] => []
  | c :: rest =>
    if c = '[' then
      match _h : cutGroup rest with
      | some (g, left) => .group g :: items left
      | none => .char c :: items rest
    else .char c :: items rest
termination_by cs => cs.length
decreasing_by
  all_goals simp only [List.length_cons]
  · have := cutGroup_length_le _h
    omega
  · omega
  · omega

/-- The text outside the groups. -/
def outside (found : List Item) : List Char :=
  found.filterMap fun
    | .char c => some c
    | .group _ => none

/-- The groups, in order. -/
def groups (found : List Item) : List Group :=
  found.filterMap fun
    | .char _ => none
    | .group g => some g

/-- The value of the last group with an attribute. -/
def valueOf (key : String) (gs : List Group) : Option String :=
  (gs.reverse.find? (·.key = key.toList)).map fun g => String.ofList (Text.normalize g.value)

/-- The attribute is one that can be asked for. -/
def isKnown (key : List Char) : Bool :=
  key = "name".toList || key = "role".toList

/-- The name that the text outside the groups gives. -/
def outsideName (found : List Item) : Option String :=
  let name := Text.normalize (outside found)
  if name = [] then none else some (String.ofList name)

/-- Reads an accessible selector. -/
def ofText (text : String) : Except Error Accessible :=
  if text.utf8ByteSize > maxBytes then
    .error (.invalidSelector ("Selector of " ++ toString text.utf8ByteSize ++
      " characters is too long (limit " ++ toString maxBytes ++ ")"))
  else
    let found := items text.toList
    let gs := groups found
    match gs.find? (!isKnown ·.key) with
    | some g =>
      .error (.invalidSelector ("Unknown aria attribute \"" ++ String.ofList g.key ++
        "\" in selector"))
    | none => .ok ⟨(valueOf "name" gs).or (outsideName found), valueOf "role" gs⟩

end Accessible

end Wayfind.Selector
