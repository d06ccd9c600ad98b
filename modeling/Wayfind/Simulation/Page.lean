/-
A simulated page: elements served under exact selectors, page functions that follow a
script, and a ledger of the handles given out.

Every handle is entered in the ledger when it is made and marked there when it is
released, so nothing that was forgotten stays unseen.
-/
import Wayfind.Simulation.Element

namespace Wayfind.Simulation

/-- An element of the page, by its number. -/
abbrev ElementId := Nat

/-- What a handle refers to. -/
inductive Target where
  | json (value : Json)
  | element (id : ElementId)

/-- A handle, by its place in the ledger. -/
structure Handle where
  id : Nat
  target : Target

/-- What a page function does: it fails a number of times, then gives its result. -/
structure Behaviour where
  failures : Nat
  result : Target
  /-- How often it was called. -/
  calls : Nat

/-- A condition on elements, which may look at how often it was asked, this time included. -/
structure Predicate where
  holds : Nat → Element → Bool
  calls : Nat

/-- What a page function makes of an element. -/
abbrev Mapper := ElementId → Element → Target

/-- The state of a page. -/
structure Page where
  /-- The elements, by their numbers; those beyond are blank. -/
  elements : Array Element
  /-- The elements selectors are served. -/
  served : List (String × ElementId)
  /-- The milliseconds before a selector is looked for. -/
  delays : List (String × Nat)
  functions : List (String × Behaviour)
  /-- The predicates in the order they came in; of those for one script the last one counts. -/
  predicates : List (String × Predicate)
  mappers : List (String × Mapper)
  /-- For every handle made, whether it has been released. -/
  ledger : Array Bool

/-- The list with one key set, in its place or at the end. -/
def put {α : Type} (key : String) (value : α) : List (String × α) → List (String × α)
  | [] => [(key, value)]
  | (k, v) :: rest => if k = key then (key, value) :: rest else (k, v) :: put key value rest

/-- The list without one key. -/
def remove {α : Type} (key : String) (entries : List (String × α)) : List (String × α) :=
  entries.filter fun (k, _) => k != key

/-- The place of the last entry for a key. -/
def lastPlace? {α : Type} (key : String) : List (String × α) → Option Nat
  | [] => none
  | (k, _) :: rest =>
    match lastPlace? key rest with
    | some place => some (place + 1)
    | none => if k = key then some 0 else none

namespace Page

/-- A page with elements and nothing else. -/
def ofElements (elements : Array Element) : Page := ⟨elements, [], [], [], [], [], #[]⟩

/-- An element of the page. -/
def element (p : Page) (id : ElementId) : Element := (p.elements[id]?).getD default

/-- Changes an element. -/
def modifyElement (p : Page) (id : ElementId) (change : Element → Element) : Page :=
  let blanks := Array.replicate (id + 1 - p.elements.size) default
  { p with elements := (p.elements ++ blanks).modify id change }

/-- Does something to an element that gives a result. -/
def onElement {α : Type} (p : Page) (id : ElementId) (act : Element → α × Element) : α × Page :=
  ((act (p.element id)).1, p.modifyElement id fun _ => (act (p.element id)).2)

/-! ### The ledger -/

/-- The number of handles ever made. -/
def created (p : Page) : Nat := p.ledger.size

/-- The number of handles made and not released. -/
def live (p : Page) : Nat := (p.ledger.toList.filter (!·)).length

/-- The handle has been released. -/
def isReleased (p : Page) (h : Handle) : Bool := (p.ledger[h.id]?).getD true

/-- Makes a handle. -/
def newHandle (p : Page) (target : Target) : Handle × Page :=
  (⟨p.ledger.size, target⟩, { p with ledger := p.ledger.push false })

/-- Makes handles in order. -/
def newHandles (p : Page) : List Target → List Handle × Page
  | [] => ([], p)
  | target :: rest =>
    let (handle, p) := p.newHandle target
    let (handles, p) := newHandles p rest
    (handle :: handles, p)

/-- Releases a handle. -/
def release (p : Page) (h : Handle) : Page :=
  { p with ledger := p.ledger.setIfInBounds h.id true }

/-- The element behind a handle that is not released. -/
def elementOf (p : Page) (h : Handle) : Option ElementId :=
  match h.target with
  | .element id => if p.isReleased h then none else some id
  | .json _ => none

/-- The element behind a handle, or why there is none. -/
def elementFor (p : Page) (h : Handle) : Except Error ElementId :=
  if p.isReleased h then .error .disposed
  else match h.target with
    | .element id => .ok id
    | .json _ => .error (.scriptFailed "Handle is not an element")

/-! ### Page functions -/

/-- The document form of what a handle refers to. -/
def jsonOf (p : Page) : Target → Json
  | .json value => value
  | .element id => (p.element id).json

/-- Calls a page function. -/
def call (p : Page) (script : String) : Except Error Target × Page :=
  match p.functions.lookup script with
  | none => (.error (.scriptFailed ("No mock behaviour for " ++ script)), p)
  | some b =>
    if b.failures > 0 then
      (.error (.scriptFailed "Scripted failure"),
        { p with functions := put script { b with failures := b.failures - 1, calls := b.calls + 1 } p.functions })
    else (.ok b.result, { p with functions := put script { b with calls := b.calls + 1 } p.functions })

/-- Calls a page function and makes a handle of what it gives. -/
def callHandle (p : Page) (script : String) : Except Error Handle × Page :=
  match p.call script with
  | (.ok target, p) => ((p.newHandle target).1 |> .ok, (p.newHandle target).2)
  | (.error e, p) => (.error e, p)

/-- The place of the predicate for a script and the element that it is to be asked of: the predicate is
known and the handle is one of an element. -/
def subject (p : Page) (script : String) (h : Option Handle) : Option (Nat × ElementId) :=
  match lastPlace? script p.predicates with
  | some place => (h.bind p.elementOf).map fun id => (place, id)
  | none => none

/-- Asks the predicate at a place of an element. -/
def holds (p : Page) (place : Nat) (id : ElementId) : Bool × Page :=
  match p.predicates[place]? with
  | none => (false, p)
  | some (script, predicate) =>
    let calls := predicate.calls + 1
    (predicate.holds calls (p.element id),
      { p with predicates := p.predicates.set place (script, { predicate with calls := calls }) })

/-- What a page function makes of the element behind a handle. -/
def mapHandle (p : Page) (h : Handle) (script : String) : Except Error Handle × Page :=
  match p.elementFor h with
  | .error e => (.error e, p)
  | .ok id =>
    match p.mappers.lookup script with
    | none => (.error (Element.unknownScript script), p)
    | some mapper =>
      let (handle, p) := p.newHandle (mapper id (p.element id))
      (.ok handle, p)

/-- The document form of a handle's value. -/
def jsonValue (p : Page) (h : Handle) : Except Error Json :=
  if p.isReleased h then .error .disposed else .ok (p.jsonOf h.target)

/-- Does something to the element behind a handle. -/
def onHandle {α : Type} (p : Page) (h : Handle) (act : Element → Except Error α × Element) :
    Except Error α × Page :=
  match p.elementFor h with
  | .error e => (.error e, p)
  | .ok id => p.onElement id act

/-! ### Selectors -/

/-- What a look at a selector finds. -/
inductive Look where
  | found (h : Handle)
  /-- The selector has no element, as was waited for. -/
  | absent
  | pending

/-- Looks once for a selector that is waited for. -/
def look (p : Page) (selector : String) (wait : SelectorWait) : Look × Page :=
  match p.served.lookup selector with
  | none => (if wait.hidden then .absent else .pending, p)
  | some id =>
    let visible := (p.element id).visible
    if (if wait.hidden then !visible else !wait.visible || visible) then
      let (handle, p) := p.newHandle (.element id)
      (.found handle, p)
    else (.pending, p)

/-- The handle of the element a selector is served. -/
def find (p : Page) (selector : String) : Option Handle × Page :=
  match p.served.lookup selector with
  | none => (none, p)
  | some id =>
    let (handle, p) := p.newHandle (.element id)
    (some handle, p)

end Page

/-- A change of a page from outside. -/
inductive Change where
  | add (selector : String) (id : ElementId)
  | remove (selector : String)
  | delay (selector : String) (ms : Nat)
  | setDisabled (id : ElementId) (value : Bool)
  | setVisible (id : ElementId) (value : Bool)
  | setValue (id : ElementId) (text : String)
  | setJson (id : ElementId) (value : Json)
  | leaveViewport (id : ElementId)
  /-- The element will be found moving so many times. -/
  | setUnstable (id : ElementId) (checks : Nat)
  | onFunction (script : String) (failures : Nat) (result : Target)
  /-- A predicate comes in, for waits that begin later. -/
  | onPredicate (script : String) (holds : Nat → Element → Bool)
  | onMapper (script : String) (mapper : Mapper)

/-- The page after a change. -/
def Change.apply (c : Change) (p : Page) : Page :=
  match c with
  | add selector id => { p with served := put selector id p.served }
  | remove selector => { p with served := Simulation.remove selector p.served }
  | delay selector ms => { p with delays := put selector ms p.delays }
  | setDisabled id value => p.modifyElement id fun e => { e with disabled := value }
  | setVisible id value => p.modifyElement id fun e => { e with visible := value }
  | setValue id text => p.modifyElement id fun e => { e with value := text }
  | setJson id value => p.modifyElement id fun e => { e with json := value }
  | leaveViewport id => p.modifyElement id fun e => { e with inViewport := false }
  | setUnstable id checks => p.modifyElement id fun e => { e with unstable := checks }
  | onFunction script failures result =>
    { p with functions := put script ⟨failures, result, 0⟩ p.functions }
  | onPredicate script holds => { p with predicates := p.predicates ++ [(script, ⟨holds, 0⟩)] }
  | onMapper script mapper => { p with mappers := put script mapper p.mappers }

end Wayfind.Simulation
