/-
The page side: what locators and queries work on, said without saying how it works.

A page side has handles of values in a page, pages, and questions of its own.  What can
be done with its handles is a `Realm`, what can be done with its pages are the `Pages`;
both are records of activities, so a locator runs on any side that provides them.
-/
import Wayfind.Error
import Wayfind.Json.Basic
import Wayfind.Locator.Basic
import Wayfind.Activity.Basic
import Wayfind.Protocol.AccessibleNode

namespace Wayfind

open Activity (Token Inbox Signature)

/-- The types of a page side. -/
structure PageSide where
  /-- Questions to the page side, answered at once. -/
  Query : Type
  Answer : Query → Type
  /-- References to values in a page. -/
  Handle : Type
  Page : Type
  /-- Background work of the page side itself. -/
  Chore : Type

/-- What may interrupt an operation: its token, and the deadline behind it. -/
structure Interrupt where
  /-- Cancelled when the operation has to end. -/
  token : Token
  /-- Cancelled, just before the operation's token, when the deadline has passed. -/
  expired : Token
  /-- When the time is over. -/
  deadline : Option Nat
  /-- The time the operation had. -/
  timeout : Nat
deriving DecidableEq, Repr

/-- Background work. -/
inductive Job (H P C : Type) where
  /-- Releases a handle. -/
  | release (handle : H)
  /-- Cancels an operation at its deadline, unless it has ended before. -/
  | expire (interrupt : Interrupt) (ended : Token)
  /-- Resolves one branch of a race and posts what it found. -/
  | branch (locator : Locator P) (interrupt : Interrupt) (inbox : Inbox)
  /-- Releases what the slower branches of a race find. -/
  | drain (inbox : Inbox) (count : Nat)
  /-- Cancels a token at a time. -/
  | cancelAt (time : Nat) (t : Token)
  /-- Work of the page side. -/
  | chore (c : C)

namespace PageSide

/-- What activities on a page side ask for. -/
def signature (B : PageSide) : Signature where
  Query := B.Query
  Answer := B.Answer
  Job := Job B.Handle B.Page B.Chore
  Message := Except Error B.Handle

/-- An activity on a page side. -/
abbrev Task (B : PageSide) (α : Type) : Type := Activity B.signature α

/-- An activity on a page side that may fail. -/
abbrev Action (B : PageSide) (α : Type) : Type := ExceptT Error (Activity B.signature) α

end PageSide

variable {B : PageSide} {α : Type}

namespace PageSide.Action

/-- An action that ends as an activity says. -/
def ofActivity (p : B.Task (Except Error α)) : B.Action α := ExceptT.mk p

/-- The outcome of an action, failures included. -/
def outcome (a : B.Action α) : B.Task (Except Error α) := ExceptT.run a

/-- An outcome as a value, so that an action can go on after a failure. -/
def attempt (a : B.Action α) : B.Action (Except Error α) := ExceptT.lift a.outcome

/-- Goes on with an outcome. -/
def ofExcept : Except Error α → B.Action α
  | .ok a => pure a
  | .error e => throw e

/-- A single request. -/
def perform (r : Activity.Request B.signature) : B.Action r.Answer :=
  ExceptT.lift (Activity.perform r)

/-- A question to the page side. -/
def query (q : B.Query) : B.Action (B.Answer q) :=
  ExceptT.lift (Activity.query (S := B.signature) q)

/-- Sleeps for a number of milliseconds. -/
def sleep (ms : Nat) : B.Action Unit := ExceptT.lift (Activity.sleep ms)

/-- The action with further duties, wherever it may be dropped. -/
def protect (duties : List (Activity.Duty B.signature)) (a : B.Action α) : B.Action α :=
  ofActivity (Activity.protect duties (outcome a))

end PageSide.Action

/-- The duty to release a handle. -/
def PageSide.releaseDuty (handle : B.Handle) : Activity.Duty B.signature :=
  .fork (.release handle)

/-- An argument of a page function. -/
inductive Argument (H : Type) where
  | value (v : Json)
  | handle (h : H)
  | undefined

/-- What a function that the program lends to a page does. -/
inductive Host (H : Type) where
  /-- Asks the accessibility tree. -/
  | aria
  /-- Makes its result from the arguments alone. -/
  | native (run : List H → Except Error (Argument H))

/-- A function that the program lends to a page. -/
structure Binding (H : Type) where
  name : String
  host : Host H

/-- When a page function is evaluated again while it is waited for. -/
inductive Polling where
  /-- With every frame the page draws. -/
  | frame
  /-- Whenever the document changes. -/
  | mutation
  /-- After a number of milliseconds. -/
  | interval (ms : Nat)
deriving DecidableEq, Repr

/-- How to wait for a page function. -/
structure FunctionWait where
  /-- The time it has, in milliseconds; zero for no limit. -/
  timeout : Nat
  polling : Polling
deriving DecidableEq, Repr

/-- How to wait for a selector. -/
structure SelectorWait where
  /-- The time it has, in milliseconds; zero for no limit. -/
  timeout : Nat
  /-- Wait until the element is rendered. -/
  visible : Bool
  /-- Wait until the element is absent or not rendered. -/
  hidden : Bool
deriving DecidableEq, Repr

/-- A mouse button. -/
inductive MouseButton where
  | left
  | right
  | middle
  | back
  | forward
deriving DecidableEq, Repr

/-- The name of a mouse button. -/
def MouseButton.name : MouseButton → String
  | left => "left"
  | right => "right"
  | middle => "middle"
  | back => "back"
  | forward => "forward"

/-- How to click. -/
structure ClickOptions where
  button : MouseButton
  /-- How many times the button is pressed and released. -/
  count : Nat
  /-- The milliseconds between press and release. -/
  delay : Nat
  /-- The point, from the upper left corner; the centre when there is none. -/
  offset : Option (Float × Float)

/-- A single click with the left button. -/
def ClickOptions.default : ClickOptions := ⟨.left, 1, 0, none⟩

/-- What can be done with handles, and in the world they live in. -/
structure Realm (B : PageSide) where
  /-- The value is an element of the document. -/
  isElement : B.Handle → Bool
  /-- Releases the value; a second time does nothing. -/
  dispose : B.Handle → B.Action Unit
  /-- Calls a function on the value. -/
  evaluate : B.Handle → String → List (Argument B.Handle) → B.Action Json
  /-- Calls a function on the value and keeps a handle of the result. -/
  evaluateHandle : B.Handle → String → List (Argument B.Handle) → B.Action B.Handle
  jsonValue : B.Handle → B.Action Json
  /-- The items of an array. -/
  arrayItems : B.Handle → B.Action (List B.Handle)
  click : B.Handle → ClickOptions → B.Action Unit
  hover : B.Handle → B.Action Unit
  focus : B.Handle → B.Action Unit
  typeText : B.Handle → String → B.Action Unit
  /-- Selects options by their values; gives those that were selected. -/
  select : B.Handle → List String → B.Action (List String)
  scrollIntoView : B.Handle → B.Action Unit
  /-- More than such a part of the element is in the viewport. -/
  isIntersecting : B.Handle → Float → B.Action Bool
  /-- The utility bundle in the page. -/
  utility : B.Action B.Handle
  /-- Calls a function in the world. -/
  call : String → List (Argument B.Handle) → B.Action Json
  /-- Calls a function in the world and keeps a handle of the result. -/
  callHandle : String → List (Argument B.Handle) → B.Action B.Handle
  /-- Calls a function in the world until its result counts as true. -/
  waitFor : String → FunctionWait → List (Binding B.Handle) → List (Argument B.Handle) →
    B.Action B.Handle
  /-- The accessible nodes under a handle with a name and a role. -/
  accessibleNodes : B.Handle → Option String → Option String →
    B.Action (List Protocol.AccessibleNode)
  /-- The handle of a document node. -/
  adopt : Int → B.Action B.Handle

/-- Releases a handle; a failure to do so is passed over. -/
def Realm.release (realm : Realm B) (handle : B.Handle) : B.Task Unit := do
  let _ ← (realm.dispose handle).outcome

/-- Releases a handle in the middle of an action. -/
def Realm.releaseIn (realm : Realm B) (handle : B.Handle) : B.Action Unit :=
  ExceptT.lift (realm.release handle)

/-- What can be done with pages. -/
structure Pages (B : PageSide) where
  /-- Waits for a selector; no handle when the wait for its absence succeeded. -/
  waitForSelector : B.Page → String → SelectorWait → B.Action (Option B.Handle)
  waitForFunction : B.Page → String → FunctionWait → List (Argument B.Handle) → B.Action B.Handle
  evaluate : B.Page → String → List (Argument B.Handle) → B.Action Json
  evaluateHandle : B.Page → String → List (Argument B.Handle) → B.Action B.Handle
  /-- The first element a selector matches. -/
  querySelector : B.Page → String → B.Action (Option B.Handle)
  /-- Every element a selector matches. -/
  querySelectorAll : B.Page → String → B.Action (List B.Handle)

end Wayfind
