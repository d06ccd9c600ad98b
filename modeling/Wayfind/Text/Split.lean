/-
Lists split at their separators, texts split into words, and texts within texts.
-/

namespace Wayfind.Text

/-- A list split at its separators: the segment before the first, and each with the segment behind. -/
def splitAt? {α β : Type} (separator? : α → Option β) : List α → List α × List (β × List α)
  | [] => ([], [])
  | a :: rest =>
    let (first, others) := splitAt? separator? rest
    match separator? a with
    | some b => ([], (b, first) :: others)
    | none => (a :: first, others)

/-- The segments of a text between the characters equal to one. -/
def segments (separator : Char) (cs : List Char) : List (List Char) :=
  let (first, others) := splitAt? (fun c => if c = separator then some c else none) cs
  first :: others.map (·.2)

/-- The words of a text: the stretches without a blank between blanks. -/
def words (cs : List Char) : List (List Char) :=
  (segments ' ' cs).filter (· ≠ [])

/-- The words of a text with one blank between two. -/
def normalize (cs : List Char) : List Char :=
  [' '].intercalate (words cs)

/-- The one text occurs in the other. -/
def occursIn (part : List Char) : List Char → Bool
  | [] => part.isEmpty
  | c :: cs => part.isPrefixOf (c :: cs) || occursIn part cs

theorem occursIn_iff (part cs : List Char) : occursIn part cs = true ↔ part <:+: cs := by
  induction cs with
  | nil => rw [occursIn, List.isEmpty_iff, List.infix_nil]
  | cons c cs ih => rw [occursIn, Bool.or_eq_true, List.isPrefixOf_iff_prefix, ih, List.infix_cons_iff]

end Wayfind.Text
