/-
What is asked of a page behind a connection to find an element, and to see whether it is fit.

All of this is plain questions, calls of page functions, looks at the clock and waits for a
time.  Only to hover and to click takes the mouse, so whoever looks for an element asks
whatever is not about the mouse, and so does all that goes on in the background.
-/
import Wayfind.Proofs.Page.Finding
import Wayfind.Proofs.Remote.Settlement

namespace Wayfind.Remote

open Activity (Asks Request asks_andThen asks_attempt asks_forM asks_mapM asks_ofExcept asks_query asks_sleep)
open PageSide (Action)
open Protocol (RemoteObject)

variable {patience : Nat}

/-! ### What is plain -/

section Plain

variable {R : Request side.signature → Prop} (hR : Plain R)
include hR

theorem asks_startListening : Asks R startListening.outcome := by
  refine asks_query (B := side) (hR.plain .startListening trivial) fun before => ?_
  cases (before : Bool) with
  | true => trivial
  | false => exact asks_query (B := side) (hR.plain .listen trivial) fun r => asks_ofExcept r

theorem asks_lend (hcall : ∀ arguments id, R (.query (Query.command "Runtime.callFunctionOn"
    (callParams Script.installBinding arguments true id)))) (binding : Binding Handle) :
    Asks R (lend binding).outcome := by
  refine asks_query (B := side) (hR.plain (.lend binding) trivial) fun installed => ?_
  cases (installed : Bool) with
  | true => trivial
  | false =>
    refine asks_andThen (asks_startListening hR) fun _ => ?_
    refine asks_andThen (asks_send hR (hR.command (by decide) _)) fun _ => ?_
    refine asks_andThen (asks_callFunction hR (hcall _)) fun _ => ?_
    exact asks_query (B := side) (hR.plain (.markInstalled binding.name) trivial) fun _ => trivial

theorem asks_releaseResult (remote : RemoteObject) : Asks R (releaseResult remote).outcome := by
  unfold releaseResult
  split
  · exact asks_attempt (asks_send hR (hR.command (by decide) _)) fun _ => trivial
  · trivial

end Plain

/-- Whatever is not about the mouse or keys is allowed, and so are the calls of page functions that spare
what is in elements. -/
structure Handsoff (R : Request side.signature → Prop) : Prop extends Mild R where
  calling : ∀ doc, Spares doc → R (.query (Query.command "Runtime.callFunctionOn" doc))
  never : R .forever

section Handsoff

variable {R : Request side.signature → Prop} (hR : Handsoff R)
include hR

/-! ### Page functions -/

theorem asks_invoke (h : Handle) {script : String} {byValue : Bool} (args : List (Argument Handle))
    (hspares : ∀ arguments id, Spares (callParams script arguments byValue id)) :
    Asks R (h.invoke script args byValue).outcome := by
  refine asks_andThen (asks_handleArgument hR.toPlain h) fun this => ?_
  refine asks_andThen (asks_mapM (asks_callArgument hR.toPlain) args) fun arguments => ?_
  exact asks_callFunction hR.toPlain fun _ => hR.calling _ (hspares _ _)

theorem asks_evaluate (h : Handle) {script : String} (hscript : script ∉ Script.onFields)
    (args : List (Argument Handle)) : Asks R (h.evaluate script args).outcome :=
  asks_andThen (asks_invoke hR h args fun _ _ => spares_call hscript _ _ _) fun _ => trivial

theorem asks_evaluateHandle (h : Handle) (script : String) (args : List (Argument Handle)) :
    Asks R (h.evaluateHandle script args).outcome :=
  asks_andThen (asks_invoke hR h args fun _ _ => spares_byReference _ _ _) fun remote => asks_wrap hR.toPlain remote

theorem asks_utility : Asks R utility.outcome := by
  refine asks_query (B := side) (hR.plain .utility trivial) fun known => ?_
  cases (known : Option Handle) with
  | some h => trivial
  | none =>
    refine asks_query (B := side) (hR.plain .utilitySource trivial) fun source => ?_
    refine asks_andThen (asks_command hR.toPlain (hR.command (by decide) _)) fun reply => ?_
    refine asks_andThen (asks_read _ _) fun evaluation => ?_
    cases evaluation.exception with
    | some e => trivial
    | none =>
      refine asks_andThen (asks_wrap hR.toPlain evaluation.result) fun h => ?_
      exact asks_query (B := side) (hR.plain (.rememberUtility h) trivial) fun _ => trivial

/-! ### Waiting -/

theorem asks_poll (script : String) (arguments : List Json) (timeout interval : Nat)
    (deadline : Option Nat) (fuel : Nat) :
    Asks R (poll script arguments timeout interval deadline fuel).outcome := by
  induction fuel with
  | zero => exact Activity.asks_never hR.never
  | succ fuel ih =>
    refine asks_andThen (asks_callFunction hR.toPlain fun _ => hR.calling _ (spares_byReference _ _ _)) fun remote => ?_
    split
    · exact asks_wrap hR.toPlain remote
    · refine asks_andThen (asks_releaseResult hR.toPlain remote) fun _ => ?_
      refine asks_andThen (Activity.Asks.bind (Activity.asks_perform hR.clock) fun _ => trivial)
        fun (now : Nat) => ?_
      split
      · trivial
      · exact asks_andThen (asks_sleep hR.clock hR.sleepUntil _) fun _ => ih

theorem asks_waitFor (script : String) (wait : FunctionWait) (bindings : List (Binding Handle))
    (args : List (Argument Handle)) : Asks R (waitFor patience script wait bindings args).outcome := by
  have hinstall (arguments : List Json) (id : String) : R (.query (Query.command "Runtime.callFunctionOn"
      (callParams Script.installBinding arguments true id))) :=
    hR.calling _ (spares_call (by decide +kernel) _ _ _)
  refine asks_andThen (asks_forM (asks_lend hR.toPlain hinstall) bindings) fun _ => ?_
  have hrest (deadline : Option Nat) : Asks R (do
      let arguments ← args.mapM callArgument
      poll script arguments wait.timeout (pollInterval wait.polling) deadline
        (turns patience wait.timeout (pollInterval wait.polling)) : side.Action Handle).outcome :=
    asks_andThen (asks_mapM (asks_callArgument hR.toPlain) args) fun arguments =>
      asks_poll hR script arguments _ _ deadline _
  split
  · exact hrest none
  · refine asks_andThen ?_ hrest
    exact asks_andThen (asks_andThen (Activity.Asks.bind (Activity.asks_perform hR.clock) fun _ => trivial)
      fun _ => trivial) fun _ => trivial

theorem asks_keepElement (h : Handle) : Asks R ((realm patience).keepElement h).outcome := by
  unfold Realm.keepElement
  split
  · trivial
  · exact asks_andThen (asks_releaseIn hR.toPlain h) fun _ => trivial

theorem asks_waitForSelector (page : Unit) (selector : String) (wait : SelectorWait) :
    Asks R ((pages patience).waitForSelector page selector wait).outcome := by
  refine asks_andThen (asks_query (B := side) (hR.plain .registry trivial) fun _ => trivial) fun found => ?_
  refine asks_andThen (asks_utility hR) fun utility => ?_
  refine asks_andThen (asks_waitFor hR _ _ _ _) fun result => ?_
  exact asks_keepElement hR result

/-! ### Whether an element is fit -/

theorem asks_box (h : Handle) : Asks R h.box.outcome := by
  refine asks_andThen (asks_evaluate hR h (by decide +kernel) []) fun doc => ?_
  refine asks_andThen (asks_read _ _) fun b => ?_
  split <;> trivial

theorem asks_isIntersecting (h : Handle) (part : Float) : Asks R (h.isIntersecting part).outcome :=
  asks_andThen (asks_evaluate hR h (by decide +kernel) _) fun _ => trivial

theorem asks_scrollIntoView (h : Handle) : Asks R h.scrollIntoView.outcome := by
  have href : Asks R (h.reference "Cannot scroll a primitive into view").outcome := by
    unfold Handle.reference
    split <;> trivial
  refine asks_andThen href fun id => ?_
  refine asks_attempt (asks_send hR.toPlain (hR.command (by decide) _)) fun r => ?_
  cases r with
  | ok reply => trivial
  | error e => exact asks_andThen (asks_evaluate hR h (by decide +kernel) []) fun _ => trivial

/-- Before an operation acts on an element it sees whether the element is fit. -/
theorem asks_inViewport (o : Locator.Options) (h : Handle) :
    Asks R (Readiness.inViewport (realm patience) o h).outcome := by
  unfold Readiness.inViewport
  split
  · refine asks_andThen (asks_isIntersecting hR h 0) fun inside => ?_
    split
    · exact asks_scrollIntoView hR h
    · trivial
  · trivial

theorem asks_stable (o : Locator.Options) (h : Handle) :
    Asks R (Readiness.stable (realm patience) o h).outcome := by
  unfold Readiness.stable
  split
  · refine asks_andThen (asks_evaluate hR h (by decide +kernel) []) fun verdict => ?_
    split <;> trivial
  · trivial

theorem asks_enabled (o : Locator.Options) (h : Handle) :
    Asks R (Readiness.enabled (realm patience) o h).outcome := by
  unfold Readiness.enabled
  split
  · refine asks_andThen (asks_evaluate hR h (by decide +kernel) []) fun verdict => ?_
    split <;> trivial
  · trivial

/-! ### Chores -/

theorem asks_chore (c : Chore) :
    Asks R (c.activity patience) := by
  cases c with
  | event e => exact asks_handle hR.toMild hR.calling e
  | change time c =>
    refine Activity.Asks.bind (Activity.asks_perform (hR.sleepUntil time)) fun _ => ?_
    cases c with
    | event e => exact Activity.asks_perform (hR.plain (.arrive e) trivial)
    | close =>
      exact Activity.Asks.bind (asks_query (B := side) (hR.plain .close trivial) fun r => asks_ofExcept r)
        fun _ => trivial

end Handsoff

/-! ### Innocence -/

section Innocent

variable {mild : Query → Prop} (hplain : ∀ q : Query, q.IsPlain → mild q)
  (hcall : ∀ doc, Spares doc → mild (.command "Runtime.callFunctionOn" doc))
include hplain hcall

/-- What is mild is at least what is plain, and to call page functions that spare what is in elements. -/
theorem handsoff_mild : Handsoff fun r => ∀ q, r = .query q → mild q where
  clock := nofun
  sleepUntil := fun _ => nofun
  plain := fun q hq _ h => Request.query.inj h ▸ hplain q hq
  call := fun _ _ _ _ _ hspares _ h => Request.query.inj h ▸ hcall _ hspares
  calling := fun _ hspares _ h => Request.query.inj h ▸ hcall _ hspares
  never := nofun

theorem innocent_browser : (browser patience).Innocent mild where
  dispose := asks_dispose (handsoff_mild hplain hcall).toPlain
  evaluateHandle := asks_evaluateHandle (handsoff_mild hplain hcall)
  waitFor := asks_waitFor (handsoff_mild hplain hcall)
  waitForSelector := asks_waitForSelector (handsoff_mild hplain hcall)
  waitForFunction := fun _ script wait args => asks_waitFor (handsoff_mild hplain hcall) script wait [] args

/-- No background work asks for more. -/
theorem innocent_start {P : Peer} (job : Job Handle Unit Chore) :
    Activity.Innocent (S := side.signature) mild ((backend P patience).start job) :=
  (innocent_browser hplain hcall).job
    (asks_chore (handsoff_mild hplain hcall)) job

end Innocent

end Wayfind.Remote
