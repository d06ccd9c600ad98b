/-
What ends the promise of a call.

A page that calls a function of the program is left with a promise.  One page function keeps it,
another breaks it; a `Settlement` is a call of either.  Whatever the program asks besides, to answer a
call or for any other reason, ends no promise, and nothing it asks has to wait for anything but time.
-/
import Wayfind.Proofs.Activity.Interleaving
import Wayfind.Proofs.Page.Asking
import Wayfind.Proofs.Remote.Commands

namespace Wayfind.Remote

open Activity (Asks Request asks_andThen asks_attempt asks_forM asks_mapM asks_ofExcept asks_query asks_sleep)
open PageSide (Action)
open Protocol (RemoteObject)

variable {P : Peer} {patience : Nat} {α : Type}

/-! ### Promises -/

/-- The end of a promise that a call left in the page. -/
structure Settlement where
  /-- The promise is kept, not broken. -/
  kept : Bool
  /-- What the page function is called with that ends it. -/
  arguments : Json

namespace Settlement

/-- The promise of a call is kept. -/
def keeping (name : String) (call value : Json) : Settlement :=
  ⟨true, .array [valueArgument (.string name), valueArgument call, value]⟩

/-- The promise of a call is broken. -/
def breaking (name : String) (call : Json) (text : String) : Settlement :=
  ⟨false, .array [valueArgument (.string name), valueArgument call, valueArgument (.string text)]⟩

/-- It is the promise of this call. -/
def Concerns (name : String) (call : Json) (s : Settlement) : Prop :=
  ∃ last, s.arguments = .array [valueArgument (.string name), valueArgument call, last]

/-- The end of a promise that it is to call a page function. -/
def ofCall? (script : String) (arguments : Json) : Option Settlement :=
  if script = Script.resolveCall then some ⟨true, arguments⟩
  else if script = Script.rejectCall then some ⟨false, arguments⟩
  else none

theorem ofCall?_takeArguments (arguments : Json) : ofCall? Script.takeArguments arguments = none := by
  unfold ofCall?
  rw [if_neg (by decide +kernel), if_neg (by decide +kernel)]

theorem ofCall?_identity (arguments : Json) : ofCall? Script.identity arguments = none := by
  unfold ofCall?
  rw [if_neg (by decide +kernel), if_neg (by decide +kernel)]

theorem ofCall?_resolveCall (name : String) (call value : Json) :
    ofCall? Script.resolveCall (.array [valueArgument (.string name), valueArgument call, value]) =
      some (keeping name call value) := if_pos rfl

theorem ofCall?_rejectCall (name : String) (call : Json) (text : String) :
    ofCall? Script.rejectCall
        (.array [valueArgument (.string name), valueArgument call, valueArgument (.string text)]) =
      some (breaking name call text) := by
  unfold ofCall?
  rw [if_neg (by decide +kernel), if_pos rfl]
  rfl

end Settlement

/-- The end of a promise that the question is. -/
def Query.settlement? : Query → Option Settlement
  | .command method params =>
    if method = "Runtime.callFunctionOn" then
      (params.member "functionDeclaration").string?.bind (Settlement.ofCall? · (params.member "arguments"))
    else none
  | _ => none

theorem settlement?_call (script : String) (arguments : List Json) (byValue : Bool) (id : String) :
    (Query.command "Runtime.callFunctionOn" (callParams script arguments byValue id)).settlement? =
      Settlement.ofCall? script (.array arguments) := rfl

theorem settlement?_command {method : String} (h : method ≠ "Runtime.callFunctionOn") (params : Json) :
    (Query.command method params).settlement? = none := if_neg h

/-- The promises that were ended, one after another. -/
def settlements (record : List (Instant P)) : List Settlement := record.filterMap (·.query.settlement?)

@[simp] theorem settlements_nil : settlements ([] : List (Instant P)) = [] := rfl

@[simp] theorem settlements_append (first second : List (Instant P)) :
    settlements (first ++ second) = settlements first ++ settlements second := List.filterMap_append

theorem settlements_cons (m : Instant P) (rest : List (Instant P)) :
    settlements (m :: rest) = m.query.settlement?.toList ++ settlements rest := by
  unfold settlements
  rw [List.filterMap_cons]
  cases m.query.settlement? <;> rfl

/-! ### What is asked besides -/

/-- The question neither calls a page function nor tells the page of the mouse or of keys. -/
def Query.IsPlain : Query → Prop
  | .command method _ => method ≠ "Runtime.callFunctionOn" ∧ method ≠ "Input.dispatchMouseEvent" ∧
    method ≠ "Input.dispatchKeyEvent"
  | _ => True

/-- The page functions that read or change what is in an element, or give it the focus. -/
def Script.onFields : List String :=
  [ElementScript.text, ElementScript.clear, ElementScript.assign, Script.select, Script.focus]

/-- The call of a page function with such parameters is not one of these, for the value of its result. -/
def Spares (doc : Json) : Prop :=
  (doc.member "returnByValue").bool? = some true →
    ∀ script ∈ Script.onFields, (doc.member "functionDeclaration").string? ≠ some script

theorem spares_byReference (script : String) (arguments : List Json) (id : String) :
    Spares (callParams script arguments false id) := by
  intro h
  exact absurd (show some false = some true from h) (by decide)

theorem spares_call {script : String} (h : script ∉ Script.onFields) (arguments : List Json)
    (byValue : Bool) (id : String) : Spares (callParams script arguments byValue id) := by
  intro _ other hother hsame
  obtain rfl : script = other := Option.some.inj hsame
  exact h hother

/-- What is allowed is at least to look at the clock, to wait for a time, and to ask what is plain. -/
structure Plain (R : Request side.signature → Prop) : Prop where
  clock : R .clock
  sleepUntil : ∀ time, R (.sleepUntil time)
  plain : ∀ q : Query, q.IsPlain → R (.query q)

/-- It is allowed besides to call page functions that end no promise and spare what is in elements. -/
structure Mild (R : Request side.signature → Prop) : Prop extends Plain R where
  call : ∀ script arguments byValue id, Settlement.ofCall? script (.array arguments) = none →
    Spares (callParams script arguments byValue id) →
    R (.query (Query.command "Runtime.callFunctionOn" (callParams script arguments byValue id)))

/-- The request ends no promise. -/
def IsCalm : Request side.signature → Prop
  | .query q => Query.settlement? q = none
  | _ => True

theorem Query.IsPlain.settlement? {q : Query} (hq : q.IsPlain) : q.settlement? = none := by
  cases q with
  | command method params => exact settlement?_command hq.1 params
  | _ => rfl

theorem mild_calm : Mild IsCalm :=
  ⟨⟨trivial, fun _ => trivial, fun _ hq => hq.settlement?⟩, fun _ _ _ _ h _ => (settlement?_call _ _ _ _).trans h⟩

theorem mild_patient : Mild Request.isPatient :=
  ⟨⟨nofun, fun time _ => ⟨time, rfl⟩, fun _ _ => nofun⟩, fun _ _ _ _ _ _ => nofun⟩

theorem Plain.command {R : Request side.signature → Prop} (hR : Plain R) {method : String}
    (h : method ≠ "Runtime.callFunctionOn" ∧ method ≠ "Input.dispatchMouseEvent" ∧
      method ≠ "Input.dispatchKeyEvent") (doc : Json) :
    R (.query (Query.command method doc)) :=
  hR.plain (.command method doc) h

section Plain

variable {R : Request side.signature → Prop} (hR : Plain R)
include hR

theorem asks_command {method : String} {doc : Json} (hcommand : R (.query (Query.command method doc))) :
    Asks R (command method doc).outcome := by
  refine asks_query (B := side) hcommand fun d => ?_
  by_cases hdelay : (d : Delivery).delay > 0
  · rw [if_pos hdelay]
    exact asks_andThen (asks_sleep hR.clock hR.sleepUntil _) fun _ => asks_ofExcept _
  · rw [if_neg hdelay]
    exact asks_ofExcept _

theorem asks_send {method : String} {doc : Json} (hcommand : R (.query (Query.command method doc))) :
    Asks R (send method doc).outcome := by
  refine asks_attempt (asks_command hR hcommand) fun r => ?_
  cases r with
  | ok reply => trivial
  | error e =>
    dsimp only
    split
    · exact asks_query (B := side) (hR.plain .forget trivial) fun _ => trivial
    · trivial

omit hR in
theorem asks_read (reader : Json.Reader α) (reply : Json) : Asks R (read reader reply).outcome := by
  unfold read
  split <;> trivial

theorem asks_globalId : Asks R globalId.outcome := by
  refine asks_query (B := side) (hR.plain .global trivial) fun known => ?_
  cases (known : Option String) with
  | some id => trivial
  | none =>
    refine asks_andThen (asks_command hR (hR.command (by decide) _)) fun reply => ?_
    refine asks_andThen (asks_read _ _) fun evaluation => ?_
    cases evaluation.result.objectId with
    | none => trivial
    | some id => exact asks_query (B := side) (hR.plain (.rememberGlobal id) trivial) fun _ => trivial

theorem asks_callFunction {script : String} {arguments : List Json} {byValue : Bool}
    (hcall : ∀ id, R (.query (Query.command "Runtime.callFunctionOn"
      (callParams script arguments byValue id)))) :
    Asks R (callFunction script arguments byValue).outcome := by
  refine asks_andThen (asks_globalId hR) fun id => ?_
  refine asks_andThen (asks_send hR (hcall id)) fun reply => ?_
  refine asks_andThen (asks_read _ _) fun evaluation => ?_
  cases evaluation.exception <;> trivial

theorem asks_wrap (remote : RemoteObject) : Asks R (wrap remote).outcome :=
  (Activity.asks_perform (hR.plain (.wrap remote) trivial)).bind fun _ => trivial

theorem asks_handleArgument (h : Handle) : Asks R (handleArgument h).outcome := by
  refine asks_query (B := side) (hR.plain (.isDisposed h) trivial) fun disposed => ?_
  cases (disposed : Bool) with
  | true => trivial
  | false => cases h.remote.objectId <;> trivial

theorem asks_callArgument (a : Argument Handle) : Asks R (callArgument a).outcome := by
  cases a with
  | value v => trivial
  | undefined => trivial
  | handle h => exact asks_handleArgument hR h

theorem asks_dispose (h : Handle) : Asks R h.dispose.outcome := by
  refine asks_query (B := side) (hR.plain (.dispose h) trivial) fun first => ?_
  split
  · split
    · exact asks_andThen (asks_send hR (hR.command (by decide) _)) fun _ => trivial
    · trivial
  · trivial

theorem asks_releaseIn (h : Handle) : Asks R ((realm patience).releaseIn h).outcome :=
  ((asks_dispose hR h).bind (f := fun _ => Activity.done ()) fun _ => trivial).bind fun _ => trivial

theorem asks_arrayItems (h : Handle) : Asks R h.arrayItems.outcome := by
  have href : Asks R (h.reference "Cannot list properties of a primitive").outcome := by
    unfold Handle.reference
    split <;> trivial
  refine asks_andThen href fun id => ?_
  refine asks_andThen (asks_send hR (hR.command (by decide) _)) fun reply => ?_
  refine asks_andThen (asks_read _ _) fun properties => ?_
  exact asks_mapM (fun item : Nat × RemoteObject => asks_wrap hR item.2) _

end Plain

section Mild

variable {R : Request side.signature → Prop} (hR : Mild R)
include hR

theorem asks_takeArguments (name : String) (call : Json) :
    Asks R (takeArguments patience name call).outcome := by
  have hcalm (id : String) : R (.query (Query.command "Runtime.callFunctionOn"
      (callParams Script.takeArguments [valueArgument (.string name), valueArgument call] false id))) :=
    hR.call _ _ _ _ (Settlement.ofCall?_takeArguments _) (spares_byReference _ _ _)
  refine asks_andThen (asks_callFunction hR.toPlain hcalm) fun remote => ?_
  refine asks_andThen (asks_wrap hR.toPlain remote) fun array => ?_
  refine asks_attempt (asks_arrayItems hR.toPlain array) fun items => ?_
  exact asks_andThen (asks_releaseIn hR.toPlain array) fun _ => asks_ofExcept items

theorem asks_jsonValue (h : Handle) : Asks R h.jsonValue.outcome := by
  have hcalm (arguments : List Json) (id : String) : R (.query (Query.command "Runtime.callFunctionOn"
      (callParams Script.identity arguments true id))) :=
    hR.call _ _ _ _ (Settlement.ofCall?_identity _) (spares_call (by decide +kernel) _ _ _)
  unfold Handle.jsonValue
  split
  · trivial
  · refine asks_andThen ?_ fun remote => trivial
    refine asks_andThen (asks_handleArgument hR.toPlain h) fun this => ?_
    exact asks_andThen (asks_mapM (asks_callArgument hR.toPlain) []) fun args => asks_callFunction hR.toPlain (hcalm _)

theorem asks_accessibleNodes (h : Handle) (name role : Option String) :
    Asks R (h.accessibleNodes name role).outcome := by
  have href : Asks R (h.reference "Accessibility query root has no object id").outcome := by
    unfold Handle.reference
    split <;> trivial
  refine asks_andThen href fun id => ?_
  refine asks_andThen (asks_send hR.toPlain (hR.command (by decide) _)) fun reply => ?_
  exact asks_read _ _

theorem asks_adopt (id : Int) : Asks R (adopt id).outcome := by
  refine asks_andThen (asks_send hR.toPlain (hR.command (by decide) _)) fun reply => ?_
  exact asks_andThen (asks_read _ _) fun remote => asks_wrap hR.toPlain remote

theorem asks_accessibleIds (root : Handle) (selector : String) :
    Asks R (Wayfind.Query.accessibleIds (realm patience) root selector).outcome := by
  refine asks_andThen (asks_ofExcept _) fun wanted => ?_
  exact asks_andThen (asks_accessibleNodes hR root _ _) fun nodes => trivial

theorem asks_accessibleFirst (root : Handle) (selector : String) :
    Asks R (Wayfind.Query.accessibleFirst (realm patience) root selector).outcome := by
  refine asks_andThen (asks_accessibleIds hR root selector) fun ids => ?_
  cases ids with
  | nil => trivial
  | cons id rest => exact asks_andThen (asks_adopt hR id) fun handle => trivial

/-- Whatever a function of the program asks to answer a call. -/
theorem asks_answerHost (host : Host Handle) (args : List Handle) :
    Asks R (Wayfind.Query.answerHost (realm patience) host args).outcome := by
  cases host with
  | native run => exact asks_ofExcept _
  | aria =>
    match args with
    | [] | [_] => trivial
    | root :: selector :: rest =>
      refine asks_andThen (asks_jsonValue hR selector) fun value => ?_
      cases value with
      | string text =>
        refine asks_andThen (asks_accessibleFirst hR root text) fun found => ?_
        cases found <;> trivial
      | _ => trivial

/-- The promise of a call is kept, if the calls of the page function that does so are allowed. -/
theorem asks_resolveCall {name : String} {call : Json} (result : Argument Handle)
    (hkeep : ∀ value id, R (.query (Query.command "Runtime.callFunctionOn" (callParams Script.resolveCall
      [valueArgument (.string name), valueArgument call, value] true id)))) :
    Asks R (resolveCall patience name call result).outcome := by
  refine asks_andThen (asks_callArgument hR.toPlain result) fun value => ?_
  refine asks_andThen (asks_callFunction hR.toPlain (hkeep value)) fun remote => ?_
  cases result with
  | handle h => exact asks_releaseIn hR.toPlain h
  | _ => trivial

end Mild

/-! ### Answering a call -/

/-- Whoever handles an event, if the calls of page functions are allowed that spare what is in elements. -/
theorem asks_handle {R : Request side.signature → Prop} (hR : Mild R)
    (hcall : ∀ doc, Spares doc → R (.query (Query.command "Runtime.callFunctionOn" doc))) (e : Protocol.Event) :
    Asks R (handle patience e) := by
  have hsettle (name : String) (params : Json) : Asks R (answerCall patience name params).outcome := by
    unfold answerCall
    split
    · trivial
    · refine asks_query (B := side) (hR.plain (.host name) trivial) fun host => ?_
      cases (host : Option (Host Handle)) with
      | none => trivial
      | some host =>
        refine asks_andThen (asks_takeArguments hR name _) fun args => ?_
        refine asks_attempt (asks_answerHost hR host args) fun outcome => ?_
        refine asks_andThen (asks_forM (asks_releaseIn hR.toPlain) args) fun _ => ?_
        cases outcome with
        | ok result =>
          exact asks_resolveCall hR result fun _ _ => hcall _ (spares_call (by decide +kernel) _ _ _)
        | error e =>
          refine asks_andThen (asks_callFunction hR.toPlain fun _ => ?_) fun _ => trivial
          exact hcall _ (spares_call (by decide +kernel) _ _ _)
  unfold handle
  split
  · split
    · exact (hsettle _ _).bind fun _ => trivial
    · trivial
  · trivial

end Wayfind.Remote
