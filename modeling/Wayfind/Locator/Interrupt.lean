/-
The deadline and the signal of an operation.

An operation has a token of its own, made under the caller's signal.  When its time is
over, a job cancels first the token that says so and then the operation's; so an
interrupted operation knows what to blame.  Each branch of a race gets a token under
the operation's, and the deadline with it.
-/
import Wayfind.Page.Side

namespace Wayfind

open Activity (Token Inbox)

variable {B : PageSide} {α : Type}

namespace PageSide.Action

/-- The time. -/
def clock : B.Action Nat := perform .clock

/-- A new token under another. -/
def newToken (parent : Option Token) : B.Action Token := perform (.newToken parent)

/-- The token is cancelled. -/
def isCancelled (t : Token) : B.Action Bool := perform (.isCancelled t)

/-- Cancels a token. -/
def cancel (t : Token) : B.Action Unit := perform (.cancel t)

/-- Forks a job. -/
def fork (job : Job B.Handle B.Page B.Chore) : B.Action Unit := perform (.fork job)

end PageSide.Action

open PageSide (Action)

/-- The activity unless the token is cancelled before or while it runs. -/
def Activity.unlessCancelled {S : Activity.Signature} (t : Token) (halt p : Activity S α) :
    Activity S α := do
  let cancelled : Bool ← Activity.perform (.isCancelled t)
  if cancelled then halt else Activity.guard t halt p

/-- The milliseconds between two attempts. -/
def retryDelay : Nat := 100

namespace Interrupt

/-- The same deadline under a new token. -/
def child (i : Interrupt) : B.Action Interrupt := do
  return { i with token := ← Action.newToken (some i.token) }

/-- The milliseconds that are left, at least one; zero without a deadline. -/
def remaining (i : Interrupt) : B.Action Nat :=
  match i.deadline with
  | none => return 0
  | some deadline => return max (deadline - (← Action.clock)) 1

/-- The error of an operation that was interrupted. -/
def error (i : Interrupt) : B.Action Error := do
  if ← Action.isCancelled i.expired then
    return .timeout ("Timed out after waiting " ++ toString i.timeout ++ "ms")
  else return .cancelled

/-- The error that ends the operation, if it was interrupted. -/
def interruption (i : Interrupt) : B.Action (Option Error) := do
  if ← Action.isCancelled i.token then return some (← i.error) else return none

/-- Ends with the error of the interruption. -/
def fail (i : Interrupt) : B.Action α := do throw (← i.error)

/-- The action unless the operation is interrupted before or while it runs. -/
def guard (i : Interrupt) (a : B.Action α) : B.Action α :=
  .ofActivity (Activity.unlessCancelled i.token (fail i).outcome a.outcome)

/-- Waits for the next attempt. -/
def pause (i : Interrupt) : B.Action Unit := i.guard (Action.sleep retryDelay)

/-- Waits for the deadline, then cancels the operation and says why; ends early when the
operation has ended or was cancelled. -/
def expire (i : Interrupt) (ended : Token) : B.Task Unit :=
  match i.deadline with
  | none => return ()
  | some deadline => do
    let reached ← Activity.unlessCancelled ended (return false)
      (Activity.unlessCancelled i.token (return false) do
        let () ← Activity.perform (.sleepUntil deadline)
        return true)
    if reached then
      let () ← Activity.perform (.cancel i.expired)
      Activity.perform (.cancel i.token)

/-- Runs an operation with a limited time, under a signal. -/
def within (timeout : Nat) (signal : Option Token) (body : Interrupt → B.Action α) :
    B.Action α := do
  let token ← Action.newToken signal
  let expired ← Action.newToken none
  if timeout = 0 then body ⟨token, expired, none, timeout⟩
  else
    let i : Interrupt := ⟨token, expired, some ((← Action.clock) + timeout), timeout⟩
    let ended ← Action.newToken none
    Action.fork (.expire i ended)
    let outcome ← ((body i).protect [.cancel ended]).attempt
    Action.cancel ended
    Action.ofExcept outcome

end Interrupt

end Wayfind
