/-
Elements of a simulated page, and the record each keeps of what was done to it.
-/
import Wayfind.Json.Basic
import Wayfind.Locator.ElementScript
import Wayfind.Locator.Typing
import Wayfind.Page.Side

namespace Wayfind.Simulation

/-- An element. -/
structure Element where
  kind : FillKind
  /-- The text in it. -/
  value : String
  /-- What the document form of it is. -/
  json : Json
  disabled : Bool
  visible : Bool
  inViewport : Bool
  /-- How many more times it will be found moving. -/
  unstable : Nat
  /-- The texts typed into it. -/
  typed : List String
  /-- The values it was set to. -/
  assigned : List String
  /-- How often it was emptied. -/
  clears : Nat
  clicks : List ClickOptions
  hovers : Nat
  focuses : Nat
  /-- The options that were asked to be selected. -/
  selected : List (List String)
  scrolls : List (Option Float × Option Float)
  /-- How often it was brought into the viewport. -/
  broughtIntoView : Nat

namespace Element

/-- A visible, enabled, empty element that nothing was done to. -/
def ofKind (kind : FillKind) : Element := {
  kind, value := "", json := .null, disabled := false, visible := true, inViewport := true
  unstable := 0, typed := [], assigned := [], clears := 0, clicks := [], hovers := 0
  focuses := 0, selected := [], scrolls := [], broughtIntoView := 0 }

instance : Inhabited Element := ⟨ofKind .unknown⟩

/-- The value of an argument, null when it is none. -/
def argument {H : Type} (args : List (Argument H)) (place : Nat) : Json :=
  match args[place]? with
  | some (.value v) => v
  | _ => .null

/-- The error of a page function the element does not know. -/
def unknownScript (script : String) : Error :=
  .scriptFailed ("Mock element cannot evaluate " ++ script)

/-- Calls a page function on the element: what it gives, and the element after it. -/
def evaluate {H : Type} (e : Element) (script : String) (args : List (Argument H)) :
    Except Error Json × Element :=
  if script = ElementScript.isStable then
    if e.unstable > 0 then (.ok (.bool false), { e with unstable := e.unstable - 1 })
    else (.ok (.bool true), e)
  else if script = ElementScript.isDisabled then (.ok (.bool e.disabled), e)
  else if script = ElementScript.fillKind then (.ok (.string e.kind.name), e)
  else if script = ElementScript.text then (.ok (.string e.value), e)
  else if script = ElementScript.clear then
    (.ok .null, { e with value := "", clears := e.clears + 1 })
  else if script = ElementScript.assign then
    let value := (argument args 0).string?.getD ""
    (.ok .null, { e with value := value, assigned := e.assigned ++ [value] })
  else if script = ElementScript.scroll then
    (.ok .null, { e with
      scrolls := e.scrolls ++ [((argument args 0).float?, (argument args 1).float?)] })
  else (.error (unknownScript script), e)

/-- Clicks the element, which has to be visible. -/
def click (e : Element) (options : ClickOptions) : Except Error Unit × Element :=
  if e.visible then (.ok (), { e with clicks := e.clicks ++ [options] })
  else (.error (.notReady "Node is either not visible or not an HTMLElement"), e)

/-- Types text at the end of what the element holds. -/
def typeText (e : Element) (text : String) : Element :=
  { e with
    focuses := e.focuses + 1
    value := e.value ++ text
    typed := e.typed ++ [text] }

/-- Selects options, which only an element of that kind has. -/
def select (e : Element) (values : List String) : Except Error (List String) × Element :=
  if e.kind = .select then
    (.ok values, { e with value := values.head?.getD "", selected := e.selected ++ [values] })
  else (.error (.unsupportedElement "Element is not a <select> element"), e)

/-- Brings the element into the viewport. -/
def scrollIntoView (e : Element) : Element :=
  { e with inViewport := true, broughtIntoView := e.broughtIntoView + 1 }

end Element

end Wayfind.Simulation
