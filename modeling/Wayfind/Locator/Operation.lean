/-
What a locator does with the element it finds.

An attempt finds a handle, checks that the element is ready, acts, and releases the
handle.  Whatever fails, the next attempt starts 100 ms later from the beginning, until
the deadline or the signal ends the operation.
-/
import Wayfind.Json.Record
import Wayfind.Locator.ElementScript
import Wayfind.Locator.Resolve
import Wayfind.Locator.Typing

namespace Wayfind

open PageSide (Action releaseDuty)

variable {B : PageSide}

/-- What to do with an element. -/
inductive Operation where
  /-- Hand its handle on. -/
  | find
  | click (options : ClickOptions)
  | hover
  | scroll (top left : Option Float)
  | fill (value : String)

namespace Operation

/-- The operation acts only on an enabled element. -/
def needsEnabled : Operation → Bool
  | click _ | fill _ => true
  | _ => false

end Operation

namespace Readiness

/-- Brings the element into the viewport, if it is not there. -/
def inViewport (realm : Realm B) (o : Locator.Options) (handle : B.Handle) : B.Action Unit := do
  if o.ensureInViewport then
    if !(← realm.isIntersecting handle 0) then realm.scrollIntoView handle

/-- Fails unless the element keeps its place. -/
def stable (realm : Realm B) (o : Locator.Options) (handle : B.Handle) : B.Action Unit := do
  if o.waitForStable then
    match ← realm.evaluate handle ElementScript.isStable [] with
    | .bool true => pure ()
    | _ => throw (.notReady "Bounding box is still moving")

/-- Fails if the element is disabled. -/
def enabled (realm : Realm B) (o : Locator.Options) (handle : B.Handle) : B.Action Unit := do
  if o.waitForEnabled then
    match ← realm.evaluate handle ElementScript.isDisabled [] with
    | .bool true => throw (.notReady "Element is disabled")
    | _ => pure ()

end Readiness

/-- Gives an element a value in the way its kind takes one. -/
def Realm.fill (realm : Realm B) (handle : B.Handle) (value : String) : B.Action Unit := do
  match FillKind.ofJson? (← realm.evaluate handle ElementScript.fillKind []) with
  | none => throw (.serialization "no kind of element")
  | some .select =>
    let _ ← realm.select handle [value]
  | some .typeableInput | some .contenteditable =>
    let current := ((← realm.evaluate handle ElementScript.text []).string?).getD ""
    let plan := TypingPlan.between current value
    if plan.clear then
      let _ ← realm.evaluate handle ElementScript.clear []
    realm.typeText handle plan.text
  | some .otherInput =>
    realm.focus handle
    let _ ← realm.evaluate handle ElementScript.assign [.value (.string value)]
  | some .unknown => throw (.unsupportedElement "Element cannot be filled out")

/-- Scrolls inside an element, where a place is given. -/
def Realm.scroll (realm : Realm B) (handle : B.Handle) (top left : Option Float) :
    B.Action Unit := do
  let place (p : Option Float) : Argument B.Handle := .value (Json.orNull (p.map Json.float))
  let _ ← realm.evaluate handle ElementScript.scroll [place top, place left]

namespace Locator

/-- Acts on an element once it is ready. -/
def act (realm : Realm B) (o : Options) (handle : B.Handle) (op : Operation) : B.Action Unit := do
  Readiness.inViewport realm o handle
  Readiness.stable realm o handle
  if op.needsEnabled then Readiness.enabled realm o handle
  let () ← Action.perform .announce
  match op with
  | .find => pure ()
  | .click options => realm.click handle options
  | .hover => realm.hover handle
  | .scroll top left => realm.scroll handle top left
  | .fill value => realm.fill handle value

/-- Finds a handle and acts on it, once. -/
def attempt (b : Browser B) (l : Locator B.Page) (op : Operation) (i : Interrupt) :
    B.Action (Option B.Handle) := do
  let handle ← l.resolve b i
  match op with
  | .find => return some handle
  | op =>
    let outcome ← ((i.guard (act b.realm l.options handle op)).protect
      [releaseDuty handle]).attempt
    (b.realm.releaseIn handle).protect [releaseDuty handle]
    Action.ofExcept outcome
    return none

/-- Attempts until one succeeds or the operation is interrupted. -/
def attempts (b : Browser B) (l : Locator B.Page) (op : Operation) (i : Interrupt) :
    Nat → B.Action (Option B.Handle)
  | 0 => .ofActivity Activity.never
  | fuel + 1 => do
    match ← (l.attempt b op i).attempt with
    | .ok result => return result
    | .error _ =>
      match ← i.interruption with
      | some e => throw e
      | none =>
        i.pause
        attempts b l op i fuel

/-- Runs an operation under a signal. -/
def run (b : Browser B) (l : Locator B.Page) (op : Operation) (signal : Option Activity.Token) :
    B.Action (Option B.Handle) :=
  Interrupt.within l.options.timeout signal fun i =>
    l.attempts b op i (turns b.patience l.options.timeout retryDelay)

/-- Finds a handle; it belongs to the caller. -/
def waitHandle (b : Browser B) (l : Locator B.Page) (signal : Option Activity.Token) :
    B.Action B.Handle := do
  match ← l.run b .find signal with
  | some handle => return handle
  | none => throw (.internal "Locator produced no handle")

/-- Finds a handle and reads the value behind it. -/
def waitValue (b : Browser B) (l : Locator B.Page) (signal : Option Activity.Token) :
    B.Action Json := do
  let handle ← l.waitHandle b signal
  let value ← ((b.realm.jsonValue handle).protect [releaseDuty handle]).attempt
  (b.realm.releaseIn handle).protect [releaseDuty handle]
  Action.ofExcept value

/-- Finds a handle and reads the value behind it as one of a type. -/
def waitAs {α : Type} (reader : Json.Reader α) (b : Browser B) (l : Locator B.Page)
    (signal : Option Activity.Token) : B.Action α := do
  match Json.Reader.ofJson? reader (← l.waitValue b signal) with
  | some value => return value
  | none => throw (.serialization "a value of another type")

/-- Finds a handle and releases it. -/
def wait (b : Browser B) (l : Locator B.Page) (signal : Option Activity.Token) :
    B.Action Unit := do
  b.realm.releaseIn (← l.waitHandle b signal)

/-- Finds an element and acts on it. -/
def perform (b : Browser B) (l : Locator B.Page) (op : Operation)
    (signal : Option Activity.Token) : B.Action Unit := do
  let _ ← l.run b op signal

end Locator

/-- The activity of a background job. -/
def Job.activity (b : Browser B) (ofChore : B.Chore → B.Task Unit) :
    Job B.Handle B.Page B.Chore → B.Task Unit
  | release handle => b.realm.release handle
  | expire i ended => i.expire ended
  | branch l i inbox => l.runBranch b i inbox
  | drain inbox count => Race.drain b.realm inbox count
  | cancelAt time t => do
    let () ← Activity.perform (.sleepUntil time)
    Activity.perform (.cancel t)
  | chore c => ofChore c

/-- The jobs that discard a handle nobody took. -/
def discardFound {H P C : Type} : Except Error H → List (Job H P C)
  | .ok handle => [.release handle]
  | .error _ => []

end Wayfind
