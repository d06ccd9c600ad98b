/-
What an action asks for.

An action that asks only what is allowed does so whether it ends with a value or an error.
-/
import Wayfind.Proofs.Activity.Steady
import Wayfind.Proofs.Page.Outcome

namespace Wayfind.Activity

open PageSide (Action)

variable {B : PageSide} {P : Request B.signature → Prop} {α β : Type}

/-- An action followed by another, which is skipped after a failure. -/
theorem asks_andThen {a : B.Action α} {f : α → B.Action β} (ha : Asks P a.outcome)
    (hf : ∀ v, Asks P (f v).outcome) : Asks P (a >>= f).outcome := by
  rw [outcome_bind]
  refine ha.bind fun r => ?_
  cases r with
  | ok v => exact hf v
  | error e => trivial

/-- An action whose failure is looked at. -/
theorem asks_attempt {a : B.Action α} {f : Except Error α → B.Action β} (ha : Asks P a.outcome)
    (hf : ∀ r, Asks P (f r).outcome) : Asks P (a.attempt >>= f).outcome := by
  rw [outcome_attempt_bind]
  exact ha.bind hf

theorem asks_query {q : B.Query} {f : B.Answer q → B.Action β} (hq : P (.query q))
    (hf : ∀ a, Asks P (f a).outcome) : Asks P (Action.query q >>= f).outcome :=
  asks_andThen ((asks_perform hq).bind fun _ => trivial) hf

theorem asks_sleep (hclock : P .clock) (hsleep : ∀ time, P (.sleepUntil time)) (ms : Nat) :
    Asks P (Action.sleep ms : B.Action Unit).outcome :=
  Asks.bind (p := Activity.sleep ms) ((asks_perform hclock).bind fun _ => asks_perform (hsleep _))
    fun _ => trivial

theorem asks_ofExcept (r : Except Error α) : Asks P (Action.ofExcept r : B.Action α).outcome := by
  rw [outcome_ofExcept]
  trivial

theorem asks_forM {f : α → B.Action PUnit} (hf : ∀ v, Asks P (f v).outcome) (vs : List α) :
    Asks P (vs.forM f).outcome := by
  induction vs with
  | nil => trivial
  | cons v vs ih => exact asks_andThen (hf v) fun _ => ih

theorem asks_mapM {f : α → B.Action β} (hf : ∀ v, Asks P (f v).outcome) (vs : List α) :
    Asks P (vs.mapM f).outcome := by
  induction vs with
  | nil => trivial
  | cons v vs ih =>
    rw [List.mapM_cons]
    exact asks_andThen (hf v) fun _ => asks_andThen ih fun _ => trivial

end Wayfind.Activity
