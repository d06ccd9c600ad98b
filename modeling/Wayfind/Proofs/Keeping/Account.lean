/-
Accounts of what has to be released.

A page side keeps account of its handles when its world owes, at any time, a bag of
charges: one or more for every handle that is live.  What `Account` leaves open is how a
world shows what it owes.

`Brings` says what an action does to the account, among others whose charges stay as they
are.  While it waits, such an action holds no charge of its own; so it can be dropped
there, and nothing is lost.
-/
import Wayfind.Locator.Operation
import Wayfind.Proofs.Activity.Prompt
import Wayfind.Proofs.Page.Ledger

namespace Wayfind.Keeping

open Activity (Prompt)
open PageSide (Action)

variable {B : PageSide} {α β : Type}

/-- What the worlds of a page side owe. -/
structure Account (K : Activity.Backend B.signature) where
  /-- Something that has to be released. -/
  Charge : Type
  /-- The charges of a handle. -/
  charge : B.Handle → Multiset Charge
  /-- The world owes just these charges. -/
  Owes : K.World → Multiset Charge → Prop

variable {K : Activity.Backend B.signature} (A : Account K)

namespace Account

/-- The charges of the handle in an outcome. -/
def chargeOf : Except Error B.Handle → Multiset A.Charge
  | .ok h => A.charge h
  | .error _ => 0

/-- The charges of the handle in an outcome, if there is one. -/
def chargeIn : Except Error (Option B.Handle) → Multiset A.Charge
  | .ok (some h) => A.charge h
  | _ => 0

end Account

/-- Where others are owed `rest`, the activity sets nothing off, and ends as it should.  While it
waits the others are owed everything, and may go on. -/
def Amid (Q : α → Multiset A.Charge → K.World → Prop) : B.Task α → Multiset A.Charge → K.World → Prop
  | .done a, rest, w => Q a rest w
  | .ask (.query q) _ _ next _, rest, w =>
    (K.answer q w).2.2 = [] ∧ Amid Q (next (K.answer q w).1) rest (K.answer q w).2.1
  | .ask .clock _ _ next _, rest, w => ∀ time, Amid Q (next time) rest w
  | .ask .announce _ _ next _, rest, w => Amid Q (next ()) rest w
  | .ask (.sleepUntil _) watched duties next _, rest, w => watched = [] ∧ duties = [] ∧
    A.Owes w rest ∧ ∀ others v, A.Owes v others → Amid Q (next ()) others v
  | .ask .forever watched duties _ _, rest, w => watched = [] ∧ duties = [] ∧ A.Owes w rest
  | .ask _ _ _ _ _, _, _ => False

variable {A} {Q : α → Multiset A.Charge → K.World → Prop} {rest m : Multiset A.Charge} {w : K.World}

theorem Amid.mono {Q' : α → Multiset A.Charge → K.World → Prop} {p : B.Task α} (h : Amid A Q p rest w)
    (hQ : ∀ a rest w, Q a rest w → Q' a rest w) : Amid A Q' p rest w := by
  induction p generalizing rest w with
  | done a => exact hQ a rest w h
  | ask r ws duties next stop ihn ihs =>
    cases r with
    | query q => exact ⟨h.1, ihn _ h.2⟩
    | clock => exact fun time => ihn time (h time)
    | announce => exact ihn () h
    | sleepUntil time => exact ⟨h.1, h.2.1, h.2.2.1, fun others v hv => ihn () (h.2.2.2 others v hv)⟩
    | forever => exact h
    | _ => exact absurd h id

theorem amid_bind {Q : β → Multiset A.Charge → K.World → Prop} {p : B.Task α} {f : α → B.Task β} :
    Amid A Q (Activity.bind p f) rest w ↔
      Amid A (fun a rest w => Amid A Q (f a) rest w) p rest w := by
  induction p generalizing rest w with
  | done a => exact Iff.rfl
  | ask r ws duties next stop ihn ihs =>
    cases r with
    | query q => exact and_congr Iff.rfl (ihn _)
    | clock => exact forall_congr' fun time => ihn time
    | announce => exact ihn ()
    | sleepUntil time =>
      exact and_congr Iff.rfl (and_congr Iff.rfl (and_congr Iff.rfl (forall_congr' fun others =>
        forall_congr' fun v => imp_congr Iff.rfl (ihn ()))))
    | _ => exact Iff.rfl

/-- What is prompt does not let others go on. -/
theorem Amid.ofPrompt {p : B.Task α} (h : Prompt K (fun _ => False) (fun a v => Q a rest v) p w) :
    Amid A Q p rest w := by
  induction p generalizing w with
  | done a => exact h
  | ask r ws duties next stop ihn ihs =>
    cases r with
    | query q => exact ⟨h.1, ihn _ h.2⟩
    | clock => exact fun time => ihn time (h time)
    | sleepUntil time => exact absurd h.1 id
    | _ => exact absurd h id

theorem amid_andThen {Q : Except Error β → Multiset A.Charge → K.World → Prop} {a : B.Action α}
    {f : α → B.Action β} :
    Amid A Q (a >>= f).outcome rest w ↔ Amid A (fun r rest w => match r with
      | .ok v => Amid A Q (f v).outcome rest w
      | .error e => Q (.error e) rest w) a.outcome rest w := by
  rw [outcome_bind, amid_bind]
  constructor <;> refine fun h => h.mono fun r rest w hr => ?_
  · cases r <;> exact hr
  · cases r <;> exact hr

/-- Whoever begins the action with such charges ends it with charges that go with its outcome, and
holds none while it waits. -/
def Brings (A : Account K) (m : Multiset A.Charge) (a : B.Action α)
    (after : Except Error α → Multiset A.Charge) : Prop :=
  ∀ w rest, A.Owes w (m + rest) →
    Amid A (fun r rest w => A.Owes w (after r + rest)) a.outcome rest w

/-- The action changes no account. -/
abbrev Idles (A : Account K) (a : B.Action α) : Prop := Brings A 0 a fun _ => 0

namespace Brings

variable {a : B.Action α} {after : Except Error α → Multiset A.Charge}

theorem pure {v : α} (h : after (.ok v) = m) : Brings A m (Pure.pure v) after := by
  intro w rest hw
  rw [← h] at hw
  exact hw

theorem throw {e : Error} (h : after (.error e) = m) : Brings A m (MonadExcept.throw e) after := by
  intro w rest hw
  rw [← h] at hw
  exact hw

theorem bind {f : α → B.Action β} {after' : Except Error β → Multiset A.Charge}
    (ha : Brings A m a after) (hok : ∀ v, Brings A (after (.ok v)) (f v) after')
    (herror : ∀ e, after' (.error e) = after (.error e)) : Brings A m (a >>= f) after' := by
  intro w rest hw
  refine amid_andThen.mpr ((ha w rest hw).mono fun r rest w hr => ?_)
  cases r with
  | ok v => exact hok v w rest hr
  | error e => exact (congrArg (fun g => A.Owes w (g + rest)) (herror e)).mpr hr

/-- What does not wait at all. -/
theorem ofPrompt (h : ∀ w rest, A.Owes w (m + rest) →
    Prompt K (fun _ => False) (fun r v => A.Owes v (after r + rest)) a.outcome w) :
    Brings A m a after := fun w rest hw => .ofPrompt (h w rest hw)

/-- To know the time changes nothing. -/
theorem clock {f : Nat → B.Action β} {after' : Except Error β → Multiset A.Charge}
    (hf : ∀ time, Brings A m (f time) after') : Brings A m (Action.clock >>= f) after' := by
  intro w rest hw
  refine amid_andThen.mpr (amid_bind.mpr ?_)
  exact fun time => hf time w rest hw

/-- Whoever sleeps holds nothing. -/
theorem sleep {ms : Nat} {f : Unit → B.Action β} {after' : Except Error β → Multiset A.Charge}
    (hf : Brings A 0 (f ()) after') : Brings A 0 (Action.sleep ms >>= f) after' := by
  intro w rest hw
  refine amid_andThen.mpr (amid_bind.mpr fun time => ?_)
  rw [zero_add] at hw
  refine ⟨rfl, rfl, hw, fun others v hv => hf v others ?_⟩
  rwa [zero_add]

theorem announce {f : Unit → B.Action β} {after' : Except Error β → Multiset A.Charge}
    (hf : Brings A m (f ()) after') : Brings A m (Action.perform .announce >>= f) after' := by
  intro w rest hw
  exact amid_andThen.mpr (amid_bind.mpr (hf w rest hw))

end Brings

theorem Idles.bind {a : B.Action α} {f : α → B.Action β} (ha : Idles A a) (hf : ∀ v, Idles A (f v)) :
    Idles A (a >>= f) :=
  Brings.bind ha hf fun _ => rfl

theorem idles_forM {f : α → B.Action PUnit} (hf : ∀ v, Idles A (f v)) (vs : List α) :
    Idles A (vs.forM f) := by
  induction vs with
  | nil => exact .pure rfl
  | cons v rest ih => exact (hf v).bind fun _ => ih

/-- Who waits for good holds nothing. -/
theorem brings_never {after : Except Error α → Multiset A.Charge} :
    Brings A 0 (.ofActivity Activity.never) after := by
  intro w rest hw
  rw [zero_add] at hw
  exact ⟨rfl, rfl, hw⟩

end Wayfind.Keeping
