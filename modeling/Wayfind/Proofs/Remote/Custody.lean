/-
A page behind a connection keeps account of its handles.

The peer answers every command at once.  What is done to an element changes no account,
and a wait holds nothing while it sleeps: a result that does not count as true has been
released by then.
-/
import Wayfind.Proofs.Keeping.Discipline
import Wayfind.Proofs.Remote.Handles

namespace Wayfind.Remote

open Activity (Prompt prompt_bind)
open Keeping (Account Brings Idles Custody brings_never idles_forM)
open PageSide (Action)
open Wayfind.Query (Handler)

variable {P : Peer} {patience : Nat} {waits : Prop} {α : Type}

/-! ### Input -/

section Quiet

variable (hP : P.Quiet waits)
include hP

theorem idle_box (h : Handle) : Idle P patience waits h.box := by
  refine (idle_evaluate hP h _ _).bind fun doc => (idle_read _ doc).bind fun b => ?_
  dsimp only
  split
  · exact Idle.bind (.throw rfl) fun _ => idle_pure b
  · exact idle_pure b

theorem idle_mouse (kind : String) (point : Float × Float) (button : String) (count : Nat) :
    Idle P patience waits (Handle.mouse kind point button count) :=
  (idle_send hP (by decide) fun _ => rfl).bind fun _ => idle_pure ()

theorem idle_hover (h : Handle) : Idle P patience waits h.hover :=
  (idle_box hP h).bind fun _ => idle_mouse hP _ _ _ _

theorem idle_focus (h : Handle) : Idle P patience waits h.focus :=
  (idle_evaluate hP h _ _).bind fun _ => idle_pure ()

theorem idle_typeText (h : Handle) (text : String) : Idle P patience waits (h.typeText text) :=
  (idle_focus hP h).bind fun _ => idle_forM (fun _ =>
    (idle_send hP (by decide) fun _ => rfl).bind fun _ => idle_pure ()) _

theorem idle_select (h : Handle) (values : List String) : Idle P patience waits (h.select values) :=
  (idle_evaluate hP h _ _).bind fun _ => idle_read _ _

theorem idle_scrollIntoView (h : Handle) : Idle P patience waits h.scrollIntoView := by
  refine (idle_reference h _).bind fun id => ?_
  refine Conserves.attempt (idle_send hP (by decide) fun _ => rfl) fun r => ?_
  cases r with
  | ok reply => exact idle_pure ()
  | error e => exact (idle_evaluate hP h _ _).bind fun _ => idle_pure ()

theorem idle_isIntersecting (h : Handle) (part : Float) : Idle P patience waits (h.isIntersecting part) :=
  (idle_evaluate hP h _ _).bind fun _ => idle_pure _

theorem idle_lend (binding : Binding Handle) : Idle P patience waits (lend binding) := by
  have hlisten : Idle P patience waits startListening := by
    refine Conserves.ask rfl rfl fun (before : Bool) => ?_
    cases before with
    | true => exact idle_pure ()
    | false => exact Conserves.ask rfl rfl fun r => idle_ofExcept r
  have hinstall : Idle P patience waits (do
      startListening
      let raw := bindingMark ++ binding.name
      let _ ← send "Runtime.addBinding" (params [("name", .string raw)])
      let _ ← callFunction Script.installBinding
        [valueArgument (.string binding.name), valueArgument (.string raw)] true
      let () ← Remote.ask (.markInstalled binding.name)) :=
    hlisten.bind fun _ => (idle_send hP (by decide) fun _ => rfl).bind fun _ =>
      (idle_callFunction hP _ _).bind fun _ => Conserves.ask rfl rfl fun _ => idle_pure ()
  refine Conserves.ask rfl rfl fun (installed : Bool) => ?_
  cases installed with
  | true => exact idle_pure ()
  | false => exact hinstall

end Quiet

/-! ### Waiting -/

/-- What the program owes a page behind a connection. -/
abbrev account (P : Peer) (patience : Nat) : Account (recording P patience) where
  Charge := Charge
  charge := Handle.charge
  Owes := Owes

theorem chargeOf_account (r : Except Error Handle) : (account P patience).chargeOf r = chargeOf r := by
  cases r <;> rfl

theorem chargeIn_account (r : Except Error (Option Handle)) :
    (account P patience).chargeIn r = chargesOptionOf r := by
  rcases r with e | _ | h
  · rfl
  · rfl
  · exact (add_zero h.charge).symm

theorem Conserves.brings {m : Multiset Charge} {a : side.Action α} {after : Except Error α → Multiset Charge}
    (h : Conserves P patience False m a after) : Brings (account P patience) m a after :=
  .ofPrompt h

section Prompt

variable (hP : P.Quiet False)
include hP

theorem idles_pressAndRelease (point : Float × Float) (o : ClickOptions) (count : Nat) :
    Idles (account P patience) (Handle.pressAndRelease point o count) := by
  have hrelease : Idles (account P patience) (Handle.mouse "mouseReleased" point o.button.name count) :=
    (idle_mouse hP _ _ _ _).brings
  refine Idles.bind (idle_mouse hP _ _ _ _).brings fun _ => ?_
  dsimp only
  split
  · exact Brings.sleep hrelease
  · exact hrelease

theorem idles_click (h : Handle) (o : ClickOptions) : Idles (account P patience) (h.click o) :=
  Idles.bind (idle_box hP h).brings fun _ => Idles.bind (idle_mouse hP _ _ _ _).brings fun _ =>
    idles_forM (fun count => idles_pressAndRelease hP _ o count) _

theorem brings_poll (script : String) (arguments : List Json) (timeout interval : Nat)
    (deadline : Option Nat) (fuel : Nat) :
    Brings (account P patience) 0 (poll script arguments timeout interval deadline fuel) chargeOf := by
  induction fuel with
  | zero => exact brings_never
  | succ fuel ih =>
    refine Brings.bind (conserves_callFunction hP script arguments).brings (fun remote => ?_) fun _ => rfl
    dsimp only
    split
    · exact (conserves_wrap remote).brings
    · refine Brings.bind (conserves_releaseResult hP remote).brings (fun _ => ?_) fun _ => rfl
      refine Brings.clock fun now => ?_
      split
      · have hlate : Idles (account P patience)
            (throw (.waitExceeded timeout) : side.Action PUnit) := .throw rfl
        exact Brings.bind hlate (fun _ => Brings.sleep ih) fun _ => rfl
      · exact Brings.sleep ih

theorem brings_waitFor (script : String) (wait : FunctionWait) (bindings : List (Binding Handle))
    (args : List (Argument Handle)) :
    Brings (account P patience) 0 (waitFor patience script wait bindings args) chargeOf := by
  have hpoll (deadline : Option Nat) : Brings (account P patience) 0 (do
      let arguments ← args.mapM callArgument
      let interval := pollInterval wait.polling
      poll script arguments wait.timeout interval deadline (turns patience wait.timeout interval))
      chargeOf :=
    Brings.bind (idle_mapM idle_callArgument args).brings
      (fun arguments => brings_poll hP script arguments _ _ deadline _) fun _ => rfl
  have hlend : Idles (account P patience) (bindings.forM lend) :=
    idles_forM (fun binding => (idle_lend hP binding).brings) bindings
  have hdeadline : Idles (account P patience)
      (some <$> (· + wait.timeout) <$> Action.clock : side.Action (Option Nat)) :=
    fun _ _ hw _ => hw
  refine Brings.bind hlend (fun _ => ?_) fun _ => rfl
  dsimp only
  split
  · exact hpoll none
  · exact Brings.bind hdeadline hpoll fun _ => rfl

/-- The handle of a node is all that is left of a wait for a selector. -/
theorem brings_await (handler : Handler) (root : Option Handle) (selector : String) (wait : SelectorWait) :
    Brings (account P patience) 0 (handler.await (realm patience) root selector wait) chargesOptionOf := by
  refine Brings.bind (idle_utility hP).brings (fun utility => ?_) fun _ => rfl
  refine Brings.bind (brings_waitFor hP _ _ _ _) (fun result => ?_) fun _ => rfl
  exact ((yields_keepElement hP result).conserves fun _ => rfl).brings

theorem brings_waitForSelector (selector : String) (wait : SelectorWait) :
    Brings (account P patience) 0 ((pages patience).waitForSelector () selector wait) chargesOptionOf := by
  have hresolve : Idle P patience False (resolve selector) := Conserves.ask rfl rfl fun registry => .pure rfl
  exact hresolve.brings.bind (fun found => brings_await hP found.1 none found.2 wait) fun _ => rfl

/-! ### Custody -/

/-- A page whose peer answers at once keeps account of its handles; the connection may be closed at
any time. -/
def custody (patience : Nat) : Custody (recording P patience) (browser patience) where
  toAccount := account P patience
  Expected c := ∃ time, c = .change time .close
  ofChore := Chore.activity patience
  start := rfl
  discard := rfl
  chores := by
    rintro c ⟨time, rfl⟩
    refine ⟨time, Change.activity .close, rfl, fun x rest hx => ?_⟩
    have hclose : Idle P patience False Remote.close := Conserves.ask rfl rfl fun r => idle_ofExcept r
    rw [← zero_add rest] at hx
    refine prompt_bind.mpr ((hclose x rest hx).mono fun r y hy => ?_)
    rwa [zero_add] at hy
  calm _ := rfl
  release h x rest hx := by
    refine prompt_bind.mpr ((conserves_dispose hP h x rest hx).mono fun r y hy => ?_)
    rwa [zero_add] at hy
  jsonValue h x rest hx := by
    rw [← zero_add rest] at hx
    refine (idle_jsonValue hP h x rest hx).mono fun r y hy => ?_
    rwa [zero_add] at hy
  waitForSelector _ selector wait := by
    rw [show (account P patience).chargeIn = chargesOptionOf from funext chargeIn_account]
    exact brings_waitForSelector hP selector wait
  waitForFunction _ script wait := by
    rw [show (account P patience).chargeOf = chargeOf from funext chargeOf_account]
    exact brings_waitFor hP script wait [] []
  waitFor script wait h := by
    rw [show (account P patience).chargeOf = chargeOf from funext chargeOf_account]
    exact brings_waitFor hP script wait [] [.handle h]
  evaluateHandle h script := by
    rw [show (account P patience).chargeOf = chargeOf from funext chargeOf_account]
    exact (conserves_evaluateHandle hP h script []).brings
  evaluate h script args := (idle_evaluate hP h script args).brings
  click h options := idles_click hP h options
  hover h := (idle_hover hP h).brings
  focus h := (idle_focus hP h).brings
  typeText h text := (idle_typeText hP h text).brings
  select h values := (idle_select hP h values).brings
  scrollIntoView h := (idle_scrollIntoView hP h).brings
  isIntersecting h part := (idle_isIntersecting hP h part).brings

end Prompt

end Wayfind.Remote
