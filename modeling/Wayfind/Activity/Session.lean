/-
Operations one after another in one timeline.

An operation runs in the foreground to its end, or is given up: when its time is over,
or when nothing that it could wait for will ever happen.  What it leaves in the
background stays in the timeline and goes on under the operations that follow.  Before
the next one begins, whatever can go on at this instant has gone on.

A run has a budget of turns, so that it ends for every activity.
-/
import Wayfind.Activity.Timeline

namespace Wayfind.Activity.Timeline

variable {S : Signature} {α : Type}

/-- Lets the background go on until it has to wait. -/
def settle (B : Backend S) (budget : Nat) (tl : Timeline S B.World) : Timeline S B.World :=
  (Run.finish B budget ⟨Activity.done (), tl, none⟩).timeline

/-- Gives up an activity where it is. -/
def giveUp (B : Backend S) (budget : Nat) (p : Activity S α) (tl : Timeline S B.World) :
    Option α × Timeline S B.World :=
  match p with
  | .done a => (some a, settle B budget tl)
  | p => (none, settle B budget (drop B p tl))

/-- Runs an activity to its end. -/
def run (B : Backend S) (budget : Nat) (p : Activity S α) (tl : Timeline S B.World) :
    Option α × Timeline S B.World :=
  let last := Run.finish B budget (Run.start B p tl none)
  giveUp B budget last.main last.timeline

/-- Runs an activity for so many milliseconds at most; what can be done at once is done. -/
def runWithin (B : Backend S) (budget : Nat) (ms : Nat) (p : Activity S α)
    (tl : Timeline S B.World) : Option α × Timeline S B.World :=
  let first := Run.start B p tl (some (tl.clock + ms))
  let last := if first.isOver then first else Run.finish B budget first
  giveUp B budget last.main last.timeline

/-- Starts an activity, leaves it alone for so many milliseconds while the background goes on, and
gives it up. -/
def runAbandoned (B : Backend S) (budget : Nat) (ms : Nat) (p : Activity S α)
    (tl : Timeline S B.World) : Option α × Timeline S B.World :=
  match advance B p tl with
  | (.done a, tl) => (some a, settle B budget tl)
  | (p, tl) => giveUp B budget p (run B budget (Activity.sleep ms) tl).2

end Wayfind.Activity.Timeline
