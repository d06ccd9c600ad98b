/-
What the questions and waits of the simulated page acquire.

Whatever a locator asks the page for under its token, it gets at most one handle, and it
gets it in the answer: while it waits it holds nothing that the wait has made
(`Acquires`).  What is done to an element makes no handle at all (`Harmless`).
-/
import Wayfind.Proofs.Page.Outcome
import Wayfind.Proofs.Simulation.Ledger

namespace Wayfind.Simulation

open Activity (Token)
open PageSide (Action)

variable {patience : Nat} {α β : Type}

/-- The activity only looks: it makes handles, and holds none while it waits.  `g` are the handles it
has made so far. -/
def Acquires (P : α → Multiset Nat → Prop) : side.Task α → Multiset Nat → Prop
  | .done a, g => P a g
  | .ask (.query q) watched duties next _, g => watched = [] ∧ duties = [] ∧
      isRelease q = false ∧ ∀ a, Acquires P (next a) (gained q a + g)
  | .ask .clock watched duties next _, g => watched = [] ∧ duties = [] ∧
      ∀ t, Acquires P (next t) g
  | .ask .announce watched duties next _, g => watched = [] ∧ duties = [] ∧ Acquires P (next ()) g
  | .ask (.sleepUntil _) watched duties next _, g => watched = [] ∧ duties = [] ∧ g = 0 ∧
      Acquires P (next ()) 0
  | .ask .forever watched duties _ _, g => watched = [] ∧ duties = [] ∧ g = 0
  | .ask _ _ _ _ _, _ => False

theorem Acquires.bind {P : β → Multiset Nat → Prop} {p : side.Task α} {f : α → side.Task β}
    {g : Multiset Nat} (h : Acquires (fun a g => Acquires P (f a) g) p g) :
    Acquires P (Activity.bind p f) g := by
  induction p generalizing g with
  | done a => exact h
  | ask r watched duties next stop ihn ihs =>
    cases r with
    | query q => exact ⟨h.1, h.2.1, h.2.2.1, fun a => ihn a (h.2.2.2 a)⟩
    | clock => exact ⟨h.1, h.2.1, fun t => ihn t (h.2.2 t)⟩
    | announce => exact ⟨h.1, h.2.1, ihn () h.2.2⟩
    | sleepUntil time => exact ⟨h.1, h.2.1, h.2.2.1, ihn () h.2.2.2⟩
    | forever => exact h
    | _ => exact absurd h id

/-! ### Rules for looking -/

section Rules

variable {P : Except Error β → Multiset Nat → Prop} {g : Multiset Nat}

theorem acquires_bind {a : side.Action α} {f : α → side.Action β}
    (h : Acquires (fun r g => match r with
      | .ok v => Acquires P (f v).outcome g
      | .error e => P (.error e) g) a.outcome g) : Acquires P (a >>= f).outcome g := by
  rw [outcome_bind]
  refine Acquires.bind ?_
  convert h using 3 with r g
  cases r <;> rfl

theorem acquires_ask {q : Query} {f : q.Answer → side.Action β} (hq : isRelease q = false)
    (h : ∀ a, Acquires P (f a).outcome (gained q a + g)) : Acquires P (ask q >>= f).outcome g :=
  acquires_bind ⟨rfl, rfl, hq, h⟩

theorem acquires_clock {f : Nat → side.Action β} (h : ∀ t, Acquires P (f t).outcome g) :
    Acquires P (Action.clock >>= f).outcome g :=
  acquires_bind ⟨rfl, rfl, h⟩

theorem acquires_sleep {ms : Nat} {f : Unit → side.Action β} (h : Acquires P (f ()).outcome 0) :
    Acquires P (Action.sleep ms >>= f).outcome 0 :=
  acquires_bind ⟨rfl, rfl, fun _ => ⟨rfl, rfl, rfl, h⟩⟩

theorem acquires_ofExcept {r : Except Error β} (h : P r g) :
    Acquires P (Action.ofExcept r : side.Action β).outcome g := by
  rw [outcome_ofExcept]
  exact h

end Rules

/-! ### Waits -/

/-- The handle of a selector, if there is one. -/
def foundIn : Except Error (Option Handle) → Multiset Nat
  | .ok (some h) => {h.id}
  | _ => 0

theorem acquires_callHandle (script : String) :
    Acquires (fun r g => g = handleOf r) (callHandle script).outcome 0 := by
  refine acquires_ask rfl fun r => acquires_ofExcept ?_
  exact add_zero _

theorem acquires_isOver {P : Except Error Bool → Multiset Nat → Prop} {g : Multiset Nat}
    (deadline : Option Nat) (h : ∀ late, P (.ok late) g) :
    Acquires P (isOver deadline).outcome g :=
  acquires_clock fun _ => h _

theorem acquires_deadlineOf {P : Except Error (Option Nat) → Multiset Nat → Prop} {g : Multiset Nat}
    (timeout : Nat) (h : ∀ deadline, P (.ok deadline) g) :
    Acquires P (deadlineOf timeout).outcome g := by
  unfold deadlineOf
  split
  · exact h none
  · exact acquires_clock fun _ => h _

theorem acquires_lookUntil (selector : String) (wait : SelectorWait) (deadline : Option Nat)
    (fuel : Nat) :
    Acquires (fun r g => g = foundIn r) (lookUntil selector wait deadline fuel).outcome 0 := by
  induction fuel with
  | zero => exact ⟨rfl, rfl, rfl⟩
  | succ fuel ih =>
    refine acquires_ask rfl fun look => ?_
    cases look with
    | found h => exact add_zero _
    | absent => exact add_zero _
    | pending =>
      refine acquires_bind (acquires_isOver deadline fun late => ?_)
      cases late with
      | true => exact acquires_bind (add_zero _)
      | false => exact acquires_sleep ih

theorem acquires_waitForSelector (selector : String) (wait : SelectorWait) :
    Acquires (fun r g => g = foundIn r)
      ((pages patience).waitForSelector () selector wait).outcome 0 := by
  refine acquires_ask rfl fun delay => ?_
  have hlook : Acquires (fun r g => g = foundIn r)
      ((deadlineOf wait.timeout >>= fun deadline => lookUntil selector wait deadline
        (turns patience wait.timeout lookInterval)).outcome) 0 :=
    acquires_bind (acquires_deadlineOf wait.timeout fun deadline =>
      acquires_lookUntil selector wait deadline _)
  cases delay with
  | none => exact hlook
  | some ms => exact acquires_sleep hlook

theorem acquires_holdsUntil (place : Nat) (id : ElementId) (timeout : Nat)
    (deadline : Option Nat) (fuel : Nat) :
    Acquires (fun r g => g = handleOf r)
      (holdsUntil place id timeout deadline fuel).outcome 0 := by
  induction fuel with
  | zero => exact ⟨rfl, rfl, rfl⟩
  | succ fuel ih =>
    refine acquires_ask rfl fun held => ?_
    cases held with
    | true => exact acquires_ask rfl fun h => add_zero _
    | false =>
      refine acquires_bind (acquires_isOver deadline fun late => ?_)
      cases late with
      | true => exact acquires_bind (add_zero _)
      | false => exact acquires_sleep ih

theorem acquires_waitFor (script : String) (wait : FunctionWait) (args : List (Argument Handle)) :
    Acquires (fun r g => g = handleOf r) (waitFor patience script wait args).outcome 0 := by
  refine acquires_ask rfl fun subject => ?_
  cases subject with
  | none => exact acquires_callHandle script
  | some found =>
    exact acquires_bind (acquires_deadlineOf wait.timeout fun deadline =>
      acquires_holdsUntil found.1 found.2 wait.timeout deadline _)

theorem acquires_evaluateHandle (h : Handle) (script : String) :
    Acquires (fun r g => g = handleOf r)
      ((realm patience).evaluateHandle h script []).outcome 0 := by
  refine acquires_ask rfl fun r => acquires_ofExcept ?_
  exact add_zero _

/-! ### Acting -/

/-- The action makes no handles and never waits. -/
def Harmless (a : side.Action α) : Prop :=
  ∀ (P : Except Error α → Multiset Nat → Prop) (g : Multiset Nat), (∀ r, P r g) →
    Acquires P a.outcome g

theorem harmless_ofExcept (r : Except Error α) : Harmless (Action.ofExcept r : side.Action α) :=
  fun _ _ h => acquires_ofExcept (h r)

theorem Harmless.bind {a : side.Action α} {f : α → side.Action β} (ha : Harmless a)
    (hf : ∀ v, Harmless (f v)) : Harmless (a >>= f) := fun P g h =>
  acquires_bind (ha _ g fun r => by
    cases r with
    | ok v => exact hf v P g h
    | error e => exact h _)

theorem harmless_ask {q : Query} (hq : isRelease q = false) (hgained : ∀ a, gained q a = 0) :
    Harmless (ask q) := by
  intro P g h
  refine ⟨rfl, rfl, hq, fun (a : q.Answer) => ?_⟩
  show P (.ok a) (gained q a + g)
  rw [hgained, zero_add]
  exact h _

end Wayfind.Simulation
