/-
Cancellation tokens, and the order in which they are cancelled.

A token stands alone or is made under another one; the tokens made under one form its
row.  To cancel a token cancels everything under it, and whoever watches one of these
tokens is woken when its turn comes.

What is under a token is reached from a queue.  The queue begins with the row of the
cancelled token, its last one first and the others in their order.  With a token that is
reached, those of its row that have nothing under them are cancelled at once, from the
last to the first, before the token itself; the others of its row go to the end of the
queue, again from the last to the first.  The cancelled token itself comes at the end.

A token that is let go of leaves its row, and the last of the row takes its place.
-/

namespace Wayfind.Activity

/-- A cancellation token. -/
abbrev Token := Nat

/-- The tokens made under a token, and whether it is cancelled. -/
structure TokenState where
  row : List Token
  cancelled : Bool
deriving DecidableEq, Repr

/-- The tokens made so far, each under its number. -/
structure Tokens where
  states : Array TokenState
deriving DecidableEq, Repr

/-- A row without the token `t`: the last of the row takes its place. -/
def leaveRow (t : Token) (row : List Token) : List Token :=
  match row.getLast? with
  | none => []
  | some last => if last = t then row.dropLast else row.dropLast.map fun u => if u = t then last else u

namespace Tokens

/-- No tokens. -/
def empty : Tokens := ⟨#[]⟩

/-- The token is cancelled. -/
def isCancelled (ts : Tokens) (t : Token) : Bool :=
  ts.states[t]?.any (·.cancelled)

/-- The tokens of a row that are not cancelled. -/
def row (ts : Tokens) (t : Token) : List Token :=
  ((ts.states[t]?.map (·.row)).getD []).filter fun u => !ts.isCancelled u

/-- A new token; under a cancelled one it is cancelled from the start. -/
def make (ts : Tokens) (parent : Option Token) : Token × Tokens :=
  let t := ts.states.size
  let listed := match parent with
    | some p => ts.states.modify p fun s => { s with row := s.row ++ [t] }
    | none => ts.states
  (t, ⟨listed.push ⟨[], parent.any ts.isCancelled⟩⟩)

/-- Lets go of a token: what is under it stands at the end of the row it was in. -/
def discard (ts : Tokens) (t : Token) : Tokens :=
  let own := ts.row t
  ⟨ts.states.map fun s => if s.row.contains t then { s with row := leaveRow t (s.row ++ own) } else s⟩

/-- The tokens reached from a queue, as they are cancelled; each is reached once, so the number of
tokens is limit enough. -/
def reached (ts : Tokens) : Nat → List Token → List Token
  | 0, _ => []
  | _ + 1, [] => []
  | limit + 1, t :: queue =>
    let (bare, others) := (ts.row t).reverse.partition fun u => (ts.row u).isEmpty
    bare ++ t :: ts.reached limit (queue ++ others)

/-- The tokens that are cancelled together with one, in this order. -/
def under (ts : Tokens) (t : Token) : List Token :=
  let row := ts.row t
  ts.reached ts.states.size (row.getLast?.toList ++ row.dropLast) ++ [t]

/-- Marks one token as cancelled. -/
def mark (ts : Tokens) (t : Token) : Tokens :=
  ⟨ts.states.modify t fun s => { s with cancelled := true }⟩

end Tokens

end Wayfind.Activity
