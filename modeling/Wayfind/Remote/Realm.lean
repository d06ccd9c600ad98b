/-
The realm and the page behind a connection.

To wait for a page function is to call it again and again; what it gives counts as true
or not as it would in the page.  Selectors go through the registry of dialects to the
document of the page.
-/
import Wayfind.Locator.Resolve
import Wayfind.Query.Element
import Wayfind.Remote.Element

namespace Wayfind.Remote

open PageSide (Action)

/-! ### Bindings -/

/-- What the name of a raw binding begins with; the name of the function follows. -/
def bindingMark : String := "__chaser_binding__"

/-- Listens to the events of the peer, unless somebody has begun to. -/
def startListening : side.Action Unit := do
  let before : Bool ← ask .startListening
  if !before then
    let r : Except Error Unit ← ask .listen
    Action.ofExcept r

/-- Lends a function to the page, and installs it there unless one of that name is installed. -/
def lend (binding : Binding Handle) : side.Action Unit := do
  let installed : Bool ← ask (.lend binding)
  if installed then return ()
  startListening
  let raw := bindingMark ++ binding.name
  let _ ← send "Runtime.addBinding" (params [("name", .string raw)])
  let _ ← callFunction Script.installBinding
    [valueArgument (.string binding.name), valueArgument (.string raw)] true
  let () ← ask (.markInstalled binding.name)

/-! ### Waiting -/

/-- The milliseconds between two calls. -/
def pollInterval : Polling → Nat
  | .frame => 16
  | .mutation => 50
  | .interval ms => max ms 1

/-- Releases a result that does not count as true; a failure is passed over. -/
def releaseResult (remote : Protocol.RemoteObject) : side.Action Unit := do
  if let some id := remote.objectId then
    let _ ← Action.attempt (send "Runtime.releaseObject" (params [("objectId", .string id)]))

/-- Calls a page function until its result counts as true or the time is over. -/
def poll (script : String) (arguments : List Json) (timeout interval : Nat)
    (deadline : Option Nat) : Nat → side.Action Handle
  | 0 => .ofActivity Activity.never
  | fuel + 1 => do
    let remote ← callFunction script arguments false
    if remote.isTruthy then wrap remote
    else
      releaseResult remote
      let now ← Action.clock
      if deadline.any (· ≤ now) then throw (.waitExceeded timeout)
      Action.sleep ((deadline.map fun d => min interval (d - now)).getD interval)
      poll script arguments timeout interval deadline fuel

/-- Waits for a page function that may call functions of the program. -/
def waitFor (patience : Nat) (script : String) (wait : FunctionWait)
    (bindings : List (Binding Handle)) (args : List (Argument Handle)) : side.Action Handle := do
  bindings.forM lend
  let deadline ← if wait.timeout = 0 then pure none
    else some <$> (· + wait.timeout) <$> Action.clock
  let arguments ← args.mapM callArgument
  let interval := pollInterval wait.polling
  poll script arguments wait.timeout interval deadline (turns patience wait.timeout interval)

/-- What can be done with handles of the page. -/
def realm (patience : Nat) : Realm side where
  isElement h := h.remote.isNode
  dispose := Handle.dispose
  evaluate := Handle.evaluate
  evaluateHandle := Handle.evaluateHandle
  jsonValue := Handle.jsonValue
  arrayItems := Handle.arrayItems
  click := Handle.click
  hover := Handle.hover
  focus := Handle.focus
  typeText := Handle.typeText
  select := Handle.select
  scrollIntoView := Handle.scrollIntoView
  isIntersecting := Handle.isIntersecting
  utility := utility
  call := call
  callHandle := callHandle
  waitFor := waitFor patience
  accessibleNodes := Handle.accessibleNodes
  adopt := adopt

/-! ### The page -/

/-- Attaches to the page behind a new connection, with a utility bundle if there is one. -/
def attach (bundle : Except Error String) : side.Action Unit := do
  let _ ← command "Runtime.enable" .null
  let _ ← command "DOM.enable" .null
  let source ← Action.ofExcept bundle
  ask (.useUtility source)

/-- Closes the connection. -/
def close : side.Action Unit := do
  let r : Except Error Unit ← ask .close
  Action.ofExcept r

/-- The dialect a selector is written in, and the selector in it. -/
def resolve (selector : String) : side.Action (Query.Handler × String) := do
  let registry : Query.Registry ← ask .registry
  return registry.resolve selector

/-- The document of the page. -/
def document : side.Action Handle := callHandle Script.document []

/-- Does something with the document and releases it, whether that succeeds or not. -/
def withDocument {α : Type} (patience : Nat) (use : Handle → side.Action α) : side.Action α := do
  let root ← document
  let outcome ← Action.attempt (use root)
  (realm patience).releaseIn root
  Action.ofExcept outcome

/-- What can be done with the page. -/
def pages (patience : Nat) : Pages side where
  waitForSelector _ selector wait := do
    let (handler, rest) ← resolve selector
    handler.await (realm patience) none rest wait
  waitForFunction _ script wait args := waitFor patience script wait [] args
  evaluate _ script args := call script args
  evaluateHandle _ script args := callHandle script args
  querySelector _ selector := do
    let (handler, rest) ← resolve selector
    withDocument patience fun root => handler.first (realm patience) root rest
  querySelectorAll _ selector := do
    let (handler, rest) ← resolve selector
    withDocument patience fun root =>
      (handler.every root rest).all (realm patience) patience

/-- The page for locators. -/
def browser (patience : Nat) : Browser side := ⟨realm patience, pages patience, patience⟩

end Wayfind.Remote
