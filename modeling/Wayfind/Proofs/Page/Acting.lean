/-
What an operation does with an element, as a sequence of what the realm offers.

Whatever holds of the steps, and of a sequence if it holds of its parts, holds of an operation as a
whole (`Deeds.act`).
-/
import Wayfind.Locator.Operation

namespace Wayfind

open PageSide (Action)

variable {B : PageSide}

/-- A kind of actions that contains all that is done to an element, and sequences of such. -/
structure Deeds (realm : Realm B) (R : (α : Type) → B.Action α → Prop) : Prop where
  pure : ∀ {α : Type} (v : α), R α (Pure.pure v)
  throw : ∀ {α : Type} (e : Error), R α (MonadExcept.throw e)
  bind : ∀ {α β : Type} {a : B.Action α} {f : α → B.Action β}, R α a → (∀ v, R β (f v)) → R β (a >>= f)
  announce : R Unit (Action.perform .announce)
  evaluate : ∀ h script args, R Json (realm.evaluate h script args)
  click : ∀ h options, R Unit (realm.click h options)
  hover : ∀ h, R Unit (realm.hover h)
  focus : ∀ h, R Unit (realm.focus h)
  typeText : ∀ h text, R Unit (realm.typeText h text)
  select : ∀ h values, R (List String) (realm.select h values)
  scrollIntoView : ∀ h, R Unit (realm.scrollIntoView h)
  isIntersecting : ∀ h part, R Bool (realm.isIntersecting h part)

namespace Deeds

variable {realm : Realm B} {R : (α : Type) → B.Action α → Prop} (deeds : Deeds realm R) (handle : B.Handle)
  (o : Locator.Options)

include deeds

theorem inViewport : R Unit (Readiness.inViewport realm o handle) := by
  unfold Readiness.inViewport
  split
  · refine deeds.bind (deeds.isIntersecting handle 0) fun inside => ?_
    split
    · exact deeds.scrollIntoView handle
    · exact deeds.pure _
  · exact deeds.pure _

theorem stable : R Unit (Readiness.stable realm o handle) := by
  unfold Readiness.stable
  split
  · refine deeds.bind (deeds.evaluate handle _ _) fun still => ?_
    split
    · exact deeds.pure _
    · exact deeds.throw _
  · exact deeds.pure _

theorem enabled : R Unit (Readiness.enabled realm o handle) := by
  unfold Readiness.enabled
  split
  · refine deeds.bind (deeds.evaluate handle _ _) fun disabled => ?_
    split
    · exact deeds.throw _
    · exact deeds.pure _
  · exact deeds.pure _

theorem enter (value : String) : R Unit (do
    let current := ((← realm.evaluate handle ElementScript.text []).string?).getD ""
    let plan := TypingPlan.between current value
    if plan.clear then
      let _ ← realm.evaluate handle ElementScript.clear []
    realm.typeText handle plan.text) := by
  refine deeds.bind (deeds.evaluate handle _ _) fun current => ?_
  dsimp only
  split
  · exact deeds.bind (deeds.evaluate handle _ _) fun _ => deeds.typeText handle _
  · exact deeds.typeText handle _

theorem fill (value : String) : R Unit (realm.fill handle value) := by
  unfold Realm.fill
  refine deeds.bind (deeds.evaluate handle _ _) fun kind => ?_
  split
  · exact deeds.throw _
  · exact deeds.bind (deeds.select handle [value]) fun _ => deeds.pure _
  · exact deeds.enter handle value
  · exact deeds.enter handle value
  · exact deeds.bind (deeds.focus handle) fun _ =>
      deeds.bind (deeds.evaluate handle _ _) fun _ => deeds.pure _
  · exact deeds.throw _

theorem act (op : Operation) : R Unit (Locator.act realm o handle op) := by
  have hready {rest : B.Action Unit} (hrest : R Unit rest) : R Unit
      (if op.needsEnabled = true then Readiness.enabled realm o handle >>= fun _ => rest else rest) := by
    split
    · exact deeds.bind (deeds.enabled handle o) fun _ => hrest
    · exact hrest
  unfold Locator.act
  refine deeds.bind (deeds.inViewport handle o) fun _ => deeds.bind (deeds.stable handle o) fun _ => ?_
  refine hready (deeds.bind deeds.announce fun _ => ?_)
  cases op with
  | find => exact deeds.pure _
  | click options => exact deeds.click handle options
  | hover => exact deeds.hover handle
  | scroll top left => exact deeds.bind (deeds.evaluate handle _ _) fun _ => deeds.pure _
  | fill value => exact deeds.fill handle value

end Deeds

end Wayfind
