/-
The simulated page as a page side.

Whatever is asked of the page is answered at once.  Waiting means to look again every
10 ms, until the time is over; a selector may also be given a delay before the first
look, which does not count.
-/
import Wayfind.Locator.Operation
import Wayfind.Activity.Timeline
import Wayfind.Simulation.Page

namespace Wayfind.Simulation

open PageSide (Action)

/-- A question to the page. -/
inductive Query where
  | delayOf (selector : String)
  | look (selector : String) (wait : SelectorWait)
  | find (selector : String)
  | call (script : String)
  | callHandle (script : String)
  | newHandle (target : Target)
  | newHandles (targets : List Target)
  | subject (script : String) (h : Option Handle)
  | holds (place : Nat) (id : ElementId)
  | mapHandle (h : Handle) (script : String)
  | jsonOf (target : Target)
  | jsonValue (h : Handle)
  | evaluate (h : Handle) (script : String) (args : List (Argument Handle))
  | click (h : Handle) (options : ClickOptions)
  | hover (h : Handle)
  | focus (h : Handle)
  | typeText (h : Handle) (text : String)
  | select (h : Handle) (values : List String)
  | scrollIntoView (h : Handle)
  | isInViewport (h : Handle)
  | release (h : Handle)
  | change (c : Change)
  /-- The whole state, for observers. -/
  | observe

/-- The type of the answer to a question. -/
def Query.Answer : Query → Type
  | delayOf _ => Option Nat
  | look _ _ => Page.Look
  | find _ => Option Handle
  | call _ => Except Error Target
  | callHandle _ => Except Error Handle
  | newHandle _ => Handle
  | newHandles _ => List Handle
  | subject _ _ => Option (Nat × ElementId)
  | holds _ _ => Bool
  | mapHandle _ _ => Except Error Handle
  | jsonOf _ => Json
  | jsonValue _ => Except Error Json
  | evaluate _ _ _ => Except Error Json
  | click _ _ => Except Error Unit
  | hover _ => Except Error Unit
  | focus _ => Except Error Unit
  | typeText _ _ => Except Error Unit
  | select _ _ => Except Error (List String)
  | scrollIntoView _ => Except Error Unit
  | isInViewport _ => Except Error Bool
  | release _ => Unit
  | change _ => Unit
  | observe => Page

/-- The answer to a question, and the page after it. -/
def Page.answer (p : Page) : (q : Query) → q.Answer × Page
  | .delayOf selector => (p.delays.lookup selector, p)
  | .look selector wait => p.look selector wait
  | .find selector => p.find selector
  | .call script => p.call script
  | .callHandle script => p.callHandle script
  | .newHandle target => p.newHandle target
  | .newHandles targets => p.newHandles targets
  | .subject script h => (p.subject script h, p)
  | .holds place id => p.holds place id
  | .mapHandle h script => p.mapHandle h script
  | .jsonOf target => (p.jsonOf target, p)
  | .jsonValue h => (p.jsonValue h, p)
  | .evaluate h script args => p.onHandle h fun e => e.evaluate script args
  | .click h options => p.onHandle h fun e => e.click options
  | .hover h => p.onHandle h fun e => (.ok (), { e with hovers := e.hovers + 1 })
  | .focus h => p.onHandle h fun e => (.ok (), { e with focuses := e.focuses + 1 })
  | .typeText h text => p.onHandle h fun e => (.ok (), e.typeText text)
  | .select h values => p.onHandle h fun e => e.select values
  | .scrollIntoView h => p.onHandle h fun e => (.ok (), e.scrollIntoView)
  | .isInViewport h => p.onHandle h fun e => (.ok e.inViewport, e)
  | .release h => ((), p.release h)
  | .change c => ((), c.apply p)
  | .observe => (p, p)

/-- A change that happens at a time. -/
structure Timed where
  time : Nat
  change : Change

/-- The simulated page as a page side; there is one page. -/
def side : PageSide where
  Query := Query
  Answer := Query.Answer
  Handle := Handle
  Page := Unit
  Chore := Timed

/-- A question to the page, as an action. -/
def ask (q : Query) : side.Action q.Answer := Action.query (B := side) q

/-- The milliseconds between two looks. -/
def lookInterval : Nat := 10

/-- The time is over. -/
def isOver (deadline : Option Nat) : side.Action Bool := do
  return deadline.any (· ≤ (← Action.clock))

/-- When a wait that starts now is over. -/
def deadlineOf (timeout : Nat) : side.Action (Option Nat) := do
  if timeout = 0 then return none else return some ((← Action.clock) + timeout)

/-- Looks for a selector until it is found or the time is over. -/
def lookUntil (selector : String) (wait : SelectorWait) (deadline : Option Nat) :
    Nat → side.Action (Option Handle)
  | 0 => .ofActivity Activity.never
  | fuel + 1 => do
    let look : Page.Look ← ask (.look selector wait)
    match look with
    | .found h => return some h
    | .absent => return none
    | .pending =>
      if ← isOver deadline then
        throw (.timeout ("Waiting for selector `" ++ selector ++ "` failed: " ++
          toString wait.timeout ++ "ms exceeded"))
      Action.sleep lookInterval
      lookUntil selector wait deadline fuel

/-- Asks the predicate at a place of an element until it holds or the time is over. -/
def holdsUntil (place : Nat) (id : ElementId) (timeout : Nat) (deadline : Option Nat) :
    Nat → side.Action Handle
  | 0 => .ofActivity Activity.never
  | fuel + 1 => do
    let held : Bool ← ask (.holds place id)
    if held then
      let h : Handle ← ask (.newHandle (.json (.bool true)))
      return h
    if ← isOver deadline then throw (.waitExceeded timeout)
    Action.sleep lookInterval
    holdsUntil place id timeout deadline fuel

/-- Calls a page function for a handle of its result. -/
def callHandle (script : String) : side.Action Handle := do
  let r : Except Error Handle ← ask (.callHandle script)
  Action.ofExcept r

/-- Calls a page function for the document form of its result. -/
def callJson (script : String) : side.Action Json := do
  let r : Except Error Target ← ask (.call script)
  let target ← Action.ofExcept r
  let value : Json ← ask (.jsonOf target)
  return value

/-- The handle an argument is. -/
def argumentHandle (args : List (Argument Handle)) : Option Handle :=
  match args.head? with
  | some (.handle h) => some h
  | _ => none

/-- Waits for a page function: a predicate of an element is asked again and again, any other
function is called once. -/
def waitFor (patience : Nat) (script : String) (wait : FunctionWait)
    (args : List (Argument Handle)) : side.Action Handle := do
  let subject : Option (Nat × ElementId) ← ask (.subject script (argumentHandle args))
  match subject with
  | some (place, id) =>
    holdsUntil place id wait.timeout (← deadlineOf wait.timeout)
      (turns patience wait.timeout lookInterval)
  | none => callHandle script

/-- What can be done with the handles of the page. -/
def realm (patience : Nat) : Realm side where
  isElement h := match h.target with
    | .element _ => true
    | .json _ => false
  dispose h := ask (.release h)
  evaluate h script args := do
    let r : Except Error Json ← ask (.evaluate h script args)
    Action.ofExcept r
  evaluateHandle h script _ := do
    let r : Except Error Handle ← ask (.mapHandle h script)
    Action.ofExcept r
  jsonValue h := do
    let r : Except Error Json ← ask (.jsonValue h)
    Action.ofExcept r
  arrayItems h := do
    let r : Except Error Json ← ask (.jsonValue h)
    let value ← Action.ofExcept r
    let handles : List Handle ← ask (.newHandles ((value.items?.getD []).map .json))
    return handles
  click h options := do
    let r : Except Error Unit ← ask (.click h options)
    Action.ofExcept r
  hover h := do
    let r : Except Error Unit ← ask (.hover h)
    Action.ofExcept r
  focus h := do
    let r : Except Error Unit ← ask (.focus h)
    Action.ofExcept r
  typeText h text := do
    let r : Except Error Unit ← ask (.typeText h text)
    Action.ofExcept r
  select h values := do
    let r : Except Error (List String) ← ask (.select h values)
    Action.ofExcept r
  scrollIntoView h := do
    let r : Except Error Unit ← ask (.scrollIntoView h)
    Action.ofExcept r
  isIntersecting h _ := do
    let r : Except Error Bool ← ask (.isInViewport h)
    Action.ofExcept r
  utility := do
    let h : Handle ← ask (.newHandle (.json (.object [])))
    return h
  call script _ := callJson script
  callHandle script _ := callHandle script
  waitFor script wait _ args := waitFor patience script wait args
  accessibleNodes _ _ _ := return []
  adopt id := throw (.elementNotFound ("backend node " ++ toString id))

/-- What can be done with the page. -/
def pages (patience : Nat) : Pages side where
  waitForSelector _ selector wait := do
    let delay : Option Nat ← ask (.delayOf selector)
    if let some ms := delay then Action.sleep ms
    lookUntil selector wait (← deadlineOf wait.timeout) (turns patience wait.timeout lookInterval)
  waitForFunction _ script _ _ := callHandle script
  evaluate _ script _ := callJson script
  evaluateHandle _ script _ := callHandle script
  querySelector _ selector := do
    let h : Option Handle ← ask (.find selector)
    return h
  querySelectorAll _ selector := do
    let h : Option Handle ← ask (.find selector)
    return h.toList

/-- The simulated page for locators. -/
def browser (patience : Nat) : Browser side := ⟨realm patience, pages patience, patience⟩

/-- A change at its time. -/
def Timed.activity (t : Timed) : side.Task Unit := do
  let () ← Activity.perform (.sleepUntil t.time)
  Activity.query (S := side.signature) (.change t.change)

/-- What the requests of activities on the simulated page mean. -/
def backend (patience : Nat) : Activity.Backend side.signature where
  World := Page
  answer q p := ((p.answer q).1, (p.answer q).2, [])
  start := Job.activity (browser patience) Timed.activity
  discard := discardFound

end Wayfind.Simulation
