/-
Actions as activities that may end with an error.

An action followed by another goes on with a value and stops at an error.
-/
import Wayfind.Page.Side

namespace Wayfind

open PageSide (Action)

variable {B : PageSide} {α β : Type}

theorem outcome_bind (a : B.Action α) (f : α → B.Action β) :
    (a >>= f).outcome = Activity.bind a.outcome fun
      | .ok v => (f v).outcome
      | .error e => .done (.error e) := by
  show Activity.bind a.outcome (ExceptT.bindCont f) = _
  congr 1
  funext r
  cases r <;> rfl

theorem outcome_lift (p : B.Task α) :
    Action.outcome (B := B) (ExceptT.lift p) = Activity.bind p fun v => .done (.ok v) := rfl

theorem outcome_lift_bind (p : B.Task α) (f : α → B.Action β) :
    Action.outcome (B := B) (ExceptT.lift p >>= f) = Activity.bind p fun v => (f v).outcome := by
  rw [outcome_bind, outcome_lift, Activity.bind_assoc]
  rfl

theorem outcome_perform_bind (r : Activity.Request B.signature) (f : r.Answer → B.Action β) :
    (Action.perform r >>= f).outcome = Activity.bind (Activity.perform r) fun a => (f a).outcome :=
  outcome_lift_bind _ _

@[simp] theorem outcome_ofExcept (r : Except Error α) :
    (Action.ofExcept r : B.Action α).outcome = .done r := by
  cases r <;> rfl

theorem outcome_attempt_bind (a : B.Action α) (f : Except Error α → B.Action β) :
    (a.attempt >>= f).outcome = Activity.bind a.outcome fun r => (f r).outcome :=
  outcome_lift_bind a.outcome f

end Wayfind
