/-
How a locator finds a handle, once.

A node waits for its selector, a function for its value.  A filter finds a handle and
waits for its predicate, a map finds one and trades it for what its function makes of
it.  A race lets all branches look at the same time: the first handle wins, the others
are released, whenever they turn up.  Whoever holds a handle releases it unless it is
handed on; an activity that is dropped leaves that as a duty.
-/
import Wayfind.Locator.Interrupt

namespace Wayfind

open Activity (Inbox)
open PageSide (Action releaseDuty)

/-- A realm and its pages, as a locator uses them. -/
structure Browser (B : PageSide) where
  realm : Realm B
  pages : Pages B
  /-- How often a loop without a time limit goes round before it merely waits. -/
  patience : Nat

/-- How often a loop goes round that takes at least `interval` a turn and has so much time. -/
def turns (patience timeout interval : Nat) : Nat :=
  if timeout = 0 then patience else timeout / interval + 2

variable {B : PageSide}

namespace Race

/-- Waits for the first handle among so many messages: the handle, and how many are still to
come; without one, the last error. -/
def firstHandle (inbox : Inbox) : Nat → Option Error → B.Action (Except (Option Error) (B.Handle × Nat))
  | 0, last => return .error last
  | count + 1, _ => do
    let m : Except Error B.Handle ← Action.perform (.take inbox)
    match m with
    | .ok handle => return .ok (handle, count)
    | .error e => firstHandle inbox count (some e)

/-- Forks the branches in order, each under a token of its own. -/
def forkBranches (race : Interrupt) (inbox : Inbox) : List (Locator B.Page) → B.Action Unit
  | [] => return ()
  | l :: rest => do
    let branch ← race.child
    Action.fork (.branch l branch inbox)
    forkBranches race inbox rest

/-- Lets branches look at the same time, and takes the first handle. -/
def run (branches : List (Locator B.Page)) (i : Interrupt) : B.Action B.Handle := do
  if branches.isEmpty then throw (.elementNotFound "race over no locators")
  let race ← i.child
  let inbox : Inbox ← Action.perform .newInbox
  forkBranches race inbox branches
  let winner ← (firstHandle inbox branches.length none).protect [.close inbox, .cancel race.token]
  Action.cancel race.token
  match winner with
  | .ok (handle, left) =>
    Action.fork (.drain inbox left)
    return handle
  | .error last => throw (last.getD (.elementNotFound "race produced no handle"))

/-- Releases the handles among so many messages. -/
def drain (realm : Realm B) (inbox : Inbox) : Nat → B.Task Unit
  | 0 => return ()
  | count + 1 => do
    let m : Except Error B.Handle ← Activity.perform (.take inbox)
    match m with
    | .ok handle => realm.release handle
    | .error _ => pure ()
    drain realm inbox count

end Race

namespace Locator

/-- Finds a handle once. -/
def resolve (b : Browser B) (i : Interrupt) : Locator B.Page → B.Action B.Handle
  | node o page selector => do
    let wait : SelectorWait :=
      ⟨← i.remaining, o.visibility == some .visible, o.visibility == some .hidden⟩
    match ← i.guard (b.pages.waitForSelector page selector wait) with
    | some handle => return handle
    | none => throw (.elementNotFound selector)
  | function _ page script => do
    let wait : FunctionWait := ⟨← i.remaining, .mutation⟩
    i.guard (b.pages.waitForFunction page script wait [])
  | filtered o inner predicate => do
    let handle ← resolve b i inner
    let wait : FunctionWait := ⟨o.timeout, .mutation⟩
    let held ← ((i.guard (b.realm.waitFor predicate wait [] [.handle handle])).protect
      [releaseDuty handle]).attempt
    match held with
    | .ok result =>
      (b.realm.releaseIn result).protect [releaseDuty handle]
      return handle
    | .error e =>
      (b.realm.releaseIn handle).protect [releaseDuty handle]
      throw e
  | mapped _ inner mapper => do
    let handle ← resolve b i inner
    let made ← ((i.guard (b.realm.evaluateHandle handle mapper [])).protect
      [releaseDuty handle]).attempt
    (b.realm.releaseIn handle).protect [releaseDuty handle]
    Action.ofExcept made
  | race _ branches => Race.run branches i

/-- Finds a handle for a race and posts it; releases it when the race is over.  At its end the
branch lets go of its token. -/
def runBranch (b : Browser B) (l : Locator B.Page) (i : Interrupt) (inbox : Inbox) :
    B.Task Unit := do
  let found ← (l.resolve b i).outcome
  let accepted : Bool ← Activity.perform (.post inbox found)
  match found with
  | .ok handle => if !accepted then b.realm.release handle
  | .error _ => pure ()
  Activity.perform (.discard i.token)

end Locator

end Wayfind
