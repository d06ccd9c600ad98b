/-
What can be done with a handle of a page behind a connection.

Input goes to a point in the viewport: the middle of the element, or a point from its
upper left corner.  Keys go to whatever has the focus.
-/
import Wayfind.Remote.Evaluation

namespace Wayfind.Remote

open PageSide (Action)
open Protocol (RemoteObject Property)

namespace Handle

/-- Calls a page function on the value of a handle. -/
def invoke (h : Handle) (script : String) (args : List (Argument Handle)) (byValue : Bool) :
    side.Action RemoteObject := do
  let this ← handleArgument h
  callFunction script (this :: (← args.mapM callArgument)) byValue

/-- Calls a page function on the value of a handle. -/
def evaluate (h : Handle) (script : String) (args : List (Argument Handle)) : side.Action Json := do
  return (← h.invoke script args true).localValue

/-- Calls a page function on the value of a handle and keeps a handle of the result. -/
def evaluateHandle (h : Handle) (script : String) (args : List (Argument Handle)) :
    side.Action Handle := do
  wrap (← h.invoke script args false)

/-- Releases the value; a second time does nothing. -/
def dispose (h : Handle) : side.Action Unit := do
  let first : Bool ← ask (.dispose h)
  if first then
    if let some id := h.remote.objectId then
      let _ ← send "Runtime.releaseObject" (params [("objectId", .string id)])

/-- The value as a document. -/
def jsonValue (h : Handle) : side.Action Json :=
  match h.remote.objectId with
  | none => return h.remote.localValue
  | some _ => h.evaluate Script.identity []

/-- The reference behind a handle, or an error where there is none. -/
def reference (h : Handle) (missing : String) : side.Action Json :=
  match h.remote.objectId with
  | some id => return .string id
  | none => throw (.internal missing)

/-! ### Items -/

/-- The number that decimal digits write, with a plus sign or without. -/
def index? (name : String) : Option Nat :=
  let digits := match name.toList with
    | '+' :: rest => rest
    | all => all
  if digits.isEmpty || !digits.all Char.isDigit then none
  else
    let n := digits.foldl (fun n c => 10 * n + (c.toNat - '0'.toNat)) 0
    if n < UInt64.size then some n else none

/-- The enumerable properties whose names are numbers, with their values. -/
def indexed (properties : List Property) : List (Nat × RemoteObject) :=
  (properties.filter (·.enumerable)).filterMap fun p => do
    return (← index? p.name, ← p.value)

/-- The items of an array, by number. -/
def arrayItems (h : Handle) : side.Action (List Handle) := do
  let id ← h.reference "Cannot list properties of a primitive"
  let reply ← send "Runtime.getProperties" (params [("objectId", id), ("ownProperties", .bool true)])
  let properties ← read Property.listReader reply
  let sorted := (indexed properties).mergeSort fun a b => a.1 ≤ b.1
  sorted.mapM fun (_, remote) => wrap remote

/-! ### Input -/

/-- A place and a size in the viewport. -/
structure Box where
  x : Float
  y : Float
  width : Float
  height : Float

/-- Reads a place and a size. -/
def Box.reader : Json.Reader Box := fun room doc => do
  let fs ← Json.Reader.fields ["x", "y", "width", "height"] room doc
  return {
    x := ← fs.required "x" Json.Reader.float
    y := ← fs.required "y" Json.Reader.float
    width := ← fs.required "width" Json.Reader.float
    height := ← fs.required "height" Json.Reader.float }

/-- The point in the middle. -/
def Box.centre (b : Box) : Float × Float := (b.x + b.width / 2, b.y + b.height / 2)

/-- The point at an offset from the upper left corner. -/
def Box.at (b : Box) (offset : Float × Float) : Float × Float := (b.x + offset.1, b.y + offset.2)

/-- The place of an element, which has to have a size. -/
def box (h : Handle) : side.Action Box := do
  let b ← read Box.reader (← h.evaluate Script.clientRect [])
  if b.width ≤ 0 || b.height ≤ 0 then
    throw (.notReady "Node is either not visible or not an HTMLElement")
  return b

/-- Sends an event of the mouse. -/
def mouse (kind : String) (point : Float × Float) (button : String) (count : Nat) :
    side.Action Unit := do
  let _ ← send "Input.dispatchMouseEvent" (params [
    ("type", .string kind), ("x", .float point.1), ("y", .float point.2),
    ("button", .string button), ("clickCount", .nat count)])

/-- Moves the mouse to a point. -/
def moveMouse (point : Float × Float) : side.Action Unit := mouse "mouseMoved" point "none" 0

/-- Presses and releases a button, as the click of a number in a row. -/
def pressAndRelease (point : Float × Float) (o : ClickOptions) (count : Nat) :
    side.Action Unit := do
  mouse "mousePressed" point o.button.name count
  if o.delay > 0 then Action.sleep o.delay
  mouse "mouseReleased" point o.button.name count

/-- Clicks on an element, once at least. -/
def click (h : Handle) (o : ClickOptions) : side.Action Unit := do
  let b ← h.box
  let point := (o.offset.map b.at).getD b.centre
  moveMouse point
  ((List.range (max o.count 1)).map (· + 1)).forM (pressAndRelease point o)

/-- Moves the mouse over an element. -/
def hover (h : Handle) : side.Action Unit := do
  moveMouse (← h.box).centre

/-- Gives an element the focus. -/
def focus (h : Handle) : side.Action Unit := do
  let _ ← h.evaluate Script.focus []

/-- Types a text into an element, character by character. -/
def typeText (h : Handle) (text : String) : side.Action Unit := do
  h.focus
  text.toList.forM fun c => do
    let _ ← send "Input.dispatchKeyEvent"
      (params [("type", .string "char"), ("text", .string (String.singleton c))])

/-- Selects options by their values. -/
def select (h : Handle) (values : List String) : side.Action (List String) := do
  let selected ← h.evaluate Script.select [.value (Json.strings values)]
  read (Json.Reader.list Json.Reader.string) selected

/-- Brings an element into the viewport, by a page function where the command fails. -/
def scrollIntoView (h : Handle) : side.Action Unit := do
  let id ← h.reference "Cannot scroll a primitive into view"
  match ← Action.attempt (send "DOM.scrollIntoViewIfNeeded" (params [("objectId", id)])) with
  | .ok _ => return ()
  | .error _ =>
    let _ ← h.evaluate Script.scrollIntoView []

/-- More than such a part of an element is in the viewport. -/
def isIntersecting (h : Handle) (part : Float) : side.Action Bool := do
  let visible ← h.evaluate Script.isIntersecting [.value (.float part)]
  return visible.bool?.getD false

/-! ### The accessibility tree -/

/-- The accessible nodes under a handle with a name and a role. -/
def accessibleNodes (h : Handle) (name role : Option String) :
    side.Action (List Protocol.AccessibleNode) := do
  let id ← h.reference "Accessibility query root has no object id"
  let reply ← send "Accessibility.queryAXTree" (params (
    [("objectId", id)] ++
    (name.map fun n => ("accessibleName", Json.string n)).toList ++
    (role.map fun r => ("role", Json.string r)).toList))
  read Protocol.AccessibleNode.listReader reply

end Handle

/-- The handle of a document node. -/
def adopt (id : Int) : side.Action Handle := do
  let reply ← send "DOM.resolveNode" (params [("backendNodeId", .int id)])
  wrap (← read RemoteObject.reader (reply.member "object"))

end Wayfind.Remote
