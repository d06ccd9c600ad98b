/-
One operation on a page behind a connection, followed by what a view of the recorded world
shows of it.

A command changes the view at once, and then the program may wait for the page to say what
has come of it.  All else that a page function takes to be called is plain, and where plain
questions keep the view it is changed by the call alone (`guides_evaluate`).
-/
import Wayfind.Proofs.Page.Guiding
import Wayfind.Proofs.Remote.Asking

namespace Wayfind.Remote

open Activity (KeptBy Request Token)
open PageSide (Action)
open Protocol (Evaluation RemoteObject)

variable {P : Peer} {patience : Nat} {α β V : Type} {view : Recorded P → V} {halting : V → Prop}
  {Q : Except Error β → List Token → V → Prop} {known : List Token} {v : V}

/-- A question to the page. -/
theorem guides_ask {q : Query} {f : q.Answer → side.Action β}
    (h : ∀ x : Recorded P, view x = v →
      Guides (recording P patience) view halting Q (f (x.1.answer q).1) known (view (x.tell q))) :
    Guides (recording P patience) view halting Q (ask q >>= f) known v :=
  guides_query h

/-- What comes of a command in a recorded world, and when. -/
def Recorded.delivery (x : Recorded P) (method : String) (doc : Json) : Delivery :=
  (P.command method doc x.1.peer).1

/-- A command is answered, and the program waits for it. -/
theorem guides_command {method : String} {doc : Json} {R : Except Error Json → List Token → V → Prop}
    (h : ∀ x : Recorded P, view x = v →
      (0 < (x.delivery method doc).delay → halting (view (x.tell (.command method doc)))) ∧
        R (x.delivery method doc).outcome known (view (x.tell (.command method doc)))) :
    Guides (recording P patience) view halting R (command method doc) known v := by
  refine guides_ask fun x hx => ?_
  have hend : Guides (recording P patience) view halting R (Action.ofExcept (x.delivery method doc).outcome)
      known (view (x.tell (.command method doc))) := guides_ofExcept (h x hx).2
  by_cases hdelay : (x.delivery method doc).delay > 0
  · exact (if_pos hdelay).symm ▸ guides_sleep _ ((h x hx).1 hdelay) hend
  · exact (if_neg hdelay).symm ▸ hend

/-- To forget what is remembered of the page does not change the view. -/
theorem guides_send {method : String} {doc : Json} {R : Except Error Json → List Token → V → Prop}
    (hforget : ∀ x : Recorded P, view (x.tell .forget) = view x)
    (h : ∀ x : Recorded P, view x = v →
      (0 < (x.delivery method doc).delay → halting (view (x.tell (.command method doc)))) ∧
        R (x.delivery method doc).outcome known (view (x.tell (.command method doc)))) :
    Guides (recording P patience) view halting R (send method doc) known v := by
  refine (guides_command h).attempt fun r more u hr => ?_
  cases r with
  | ok reply => exact hr
  | error e =>
    dsimp only
    split
    · refine guides_ask fun x hx => ?_
      rw [hforget x, hx]
      exact hr
    · exact hr

/-! ### Page functions -/

theorem plain_only : Plain fun r => ∀ q, r = .query q → Query.IsPlain q where
  clock := nofun
  sleepUntil := fun _ => nofun
  plain := fun _ hq _ h => Request.query.inj h ▸ hq

section Calls

variable (hplain : ∀ v, KeptBy (recording P patience) Query.IsPlain fun x => view x = v) (hv : halting v)
include hplain

theorem view_forget (x : Recorded P) : view (x.tell .forget) = view x := hplain (view x) .forget x trivial rfl

include hv

/-- What asks only plain questions leaves the view as it is. -/
theorem guides_plain {a : side.Action α} (ha : a.Innocent Query.IsPlain) :
    Guides (recording P patience) view halting (fun _ _ u => u = v) a known v :=
  (guides_innocent ha hplain hv).mono fun _ _ _ hr => hr.1

omit hv in
/-- A handle that is not disposed stands for itself in a call. -/
theorem guides_handleArgument (h : Handle) : Guides (recording P patience) view halting
    (EndsIn (fun doc u => doc = handleJson h ∧ u = v) (· = v)) (handleArgument h) known v := by
  rw [handleArgument_eq]
  refine guides_ask fun x hx => ?_
  have hsame : view (x.tell (.isDisposed h)) = v := (hplain (view x) (.isDisposed h) x trivial rfl).trans hx
  rw [hsame]
  cases (x.1.answer (.isDisposed h)).1 with
  | true => exact rfl
  | false => exact ⟨rfl, rfl⟩

omit hplain hv in
/-- The result of a call is read from the reply to the command. -/
theorem readResult (reply : Json) :
    (read Evaluation.reader reply >>= fun evaluation => match evaluation.exception with
      | some e => throw (thrown e)
      | none => pure evaluation.result : side.Action RemoteObject) = Action.ofExcept (resultOf (.ok reply)) := by
  unfold read resultOf
  dsimp only
  cases Evaluation.reader.ofJson? reply with
  | none => rfl
  | some evaluation =>
    show (match evaluation.exception with
      | some e => throw (thrown e)
      | none => pure evaluation.result : side.Action RemoteObject) = _
    dsimp only
    cases evaluation.exception <;> rfl

/-- Of all that it takes to call a page function only the call itself changes the view. -/
theorem guides_callFunction {script : String} {arguments : List Json} {byValue : Bool}
    {good : RemoteObject → V → Prop} {bad : V → Prop} (hbad : bad v)
    (hcall : ∀ (x : Recorded P) id, view x = v →
      let doc := callParams script arguments byValue id
      let u := view (x.tell (.command "Runtime.callFunctionOn" doc))
      (0 < (x.delivery "Runtime.callFunctionOn" doc).delay → halting u) ∧
        match resultOf (x.delivery "Runtime.callFunctionOn" doc).outcome with
        | .ok r => good r u
        | .error _ => bad u) :
    Guides (recording P patience) view halting (EndsIn good bad) (callFunction script arguments byValue)
      known v := by
  refine (guides_plain hplain hv (asks_globalId plain_only)).andThen ?_ fun e more u hr => hr ▸ hbad
  rintro id more _ rfl
  refine Guides.andThen (R := fun r _ u => match resultOf r with
    | .ok r => good r u
    | .error _ => bad u) (guides_send (view_forget hplain) fun x hx => hcall x id hx) ?_ ?_
  · intro reply more u hr
    show Guides _ _ _ _ (read Evaluation.reader reply >>= fun evaluation => match evaluation.exception with
      | some e => throw (thrown e)
      | none => pure evaluation.result) _ _
    rw [readResult]
    refine guides_ofExcept ?_
    cases hresult : resultOf (.ok reply) with
    | ok r => exact (hresult ▸ hr :)
    | error e => exact (hresult ▸ hr :)
  · exact fun e more u hr => hr

/-- So of all that it takes to call one on an element. -/
theorem guides_evaluate (h : Handle) {script : String} {good : Json → V → Prop} {bad : V → Prop} (hbad : bad v)
    (hcall : ∀ (x : Recorded P) id, view x = v →
      let doc := callParams script [handleJson h] true id
      let u := view (x.tell (.command "Runtime.callFunctionOn" doc))
      (0 < (x.delivery "Runtime.callFunctionOn" doc).delay → halting u) ∧
        match resultOf (x.delivery "Runtime.callFunctionOn" doc).outcome with
        | .ok r => good r.localValue u
        | .error _ => bad u) :
    Guides (recording P patience) view halting (EndsIn good bad) (h.evaluate script []) known v := by
  have hinvoke : Guides (recording P patience) view halting (EndsIn (fun r u => good r.localValue u) bad)
      (h.invoke script [] true) known v := by
    refine (guides_handleArgument hplain h).andThen ?_ fun e more u hr => (show u = v from hr) ▸ hbad
    rintro doc more _ ⟨rfl, rfl⟩
    exact guides_callFunction hplain hv hbad hcall
  exact hinvoke.andThen (fun _ _ _ hr => hr) fun _ _ _ hr => hr

end Calls

end Wayfind.Remote
