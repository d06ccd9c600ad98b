/-
What becomes of the references that the page hands over.

The reply to a call of a page function that was asked for a reference hands one over.  Whoever calls the
function makes a handle of it, or releases it where it does not count as true: of an evaluation, and of a
wait for a page function, nothing is left in the end but what the caller was given
(`freed_or_returned`).  The reference to what a script has thrown is handed over as well, and nobody
releases it (`lost_by_thrower`).
-/
import Wayfind.Proofs.Remote.Clearing

namespace Wayfind.Remote

open Activity (Amid Clears Dues Ends Neat clears_ask_ignored clears_clockThen clears_never clears_ofExcept
  clears_perform clears_pure clears_sleepThen clears_throw neat_forM neat_mapM neat_pure)
open PageSide (Action)
open Protocol (RemoteObject Evaluation Exception)

variable {P : Peer} {patience : Nat} {α β : Type} {owed : Set String}

/-! ### References as dues -/

/-- The reference in a description. -/
def refersTo (remote : RemoteObject) : Set String := {id | remote.objectId = some id}

/-- What the outcome of a call of a page function hands over. -/
def givenBy (doc : Json) : Except Error Json → Set String :=
  onSuccess fun reply => {id | id ∈ referencesIn "Runtime.callFunctionOn" doc reply}

/-- The references that an answer brings; that of a handle comes with the handle. -/
def Query.hands : (q : Query) → q.Answer → Set String
  | .command method doc, d =>
    if method = "Runtime.callFunctionOn" then givenBy doc (Delivery.outcome d) else ∅
  | .wrap _, h => refersTo (Handle.remote h)
  | _, _ => ∅

/-- The reference that is released, or that goes into a handle. -/
def Query.frees : Query → Set String
  | .command method doc =>
    if method = "Runtime.releaseObject" then {id | (doc.member "objectId").string? = some id} else ∅
  | .wrap remote => refersTo remote
  | _ => ∅

/-- References have to be released, or be those of handles. -/
def referenceDues : Dues side.signature String where
  brings := Query.hands
  settles := Query.frees

instance : OfObjects referenceDues where
  ignores q hq := by
    cases q with
    | wrap remote => exact hq.elim
    | command method doc => exact ⟨if_neg hq.2, fun _ => if_neg hq.1⟩
    | _ => exact ⟨rfl, fun _ => rfl⟩

/-! ### Calls of page functions -/

/-- A call for the value of the result hands nothing over. -/
theorem ignores_byValue (script : String) (arguments : List Json) (id : String) :
    referenceDues.Ignores
      (Query.command "Runtime.callFunctionOn" (callParams script arguments true id)) := by
  refine ⟨rfl, fun (d : Delivery) => ?_⟩
  show givenBy (callParams script arguments true id) d.outcome = ∅
  cases d.outcome with
  | error e => rfl
  | ok reply =>
    have hvalue : ((callParams script arguments true id).member "returnByValue").bool? = some true := rfl
    ext x
    simp [givenBy, onSuccess, referencesIn, hvalue]

theorem clears_sendCall (doc : Json) :
    Clears referenceDues ∅ (send "Runtime.callFunctionOn" doc).outcome (givenBy doc) := by
  refine clears_send fun d => ?_
  show (∅ : Set String) \ ∅ ∪ givenBy doc d.outcome ⊆ givenBy doc d.outcome
  rw [Set.sdiff_empty, Set.empty_union]

/-- The reference to the result is what a call of a page function leaves. -/
theorem clears_callFunction (script : String) (arguments : List Json) :
    Clears referenceDues ∅ (callFunction script arguments false).outcome (onSuccess refersTo) := by
  refine neat_globalId.bind fun id => ?_
  refine Clears.andThen (clears_sendCall (callParams script arguments false id)) (fun reply => ?_)
    fun _ => Set.Subset.rfl
  have hreference : ((callParams script arguments false id).member "returnByValue").bool? = some false := rfl
  unfold read
  cases hread : Evaluation.reader.ofJson? reply with
  | none =>
    refine clears_throw ?_
    simp [givenBy, onSuccess, referencesIn, hreference, hread]
  | some evaluation =>
    obtain ⟨result, exception⟩ := evaluation
    cases exception with
    | some e =>
      refine clears_throw ?_
      simp [givenBy, onSuccess, referencesIn, hreference, hread]
    | none =>
      refine clears_pure fun x hx => ?_
      simpa [givenBy, onSuccess, referencesIn, hreference, hread, reference, refersTo] using hx

/-- A handle takes the reference over. -/
theorem clears_wrap (remote : RemoteObject) :
    Clears referenceDues (refersTo remote) (wrap remote).outcome (onSuccess fun h => refersTo h.remote) := by
  refine Clears.bind (clears_perform (S := side.signature) (r := .query (Query.wrap remote))) fun (h : Handle) => ?_
  show refersTo remote \ refersTo remote ∪ refersTo h.remote ⊆ refersTo h.remote
  rw [Set.sdiff_self, Set.empty_union]

/-- A result that does not count as true is released. -/
theorem clears_releaseResult (remote : RemoteObject) :
    Clears referenceDues (refersTo remote) (releaseResult remote).outcome fun _ => ∅ := by
  unfold releaseResult
  cases hid : remote.objectId with
  | none =>
    refine clears_pure fun x hx => ?_
    exact absurd (hid.symm.trans hx) nofun
  | some id =>
    have hsend : Clears referenceDues (refersTo remote)
        (send "Runtime.releaseObject" (params [("objectId", .string id)])).outcome fun _ => ∅ := by
      refine clears_send fun d => ?_
      rintro x (⟨hx, hkept⟩ | hbrought)
      · have hsame : id = x := Option.some.inj (hid.symm.trans hx)
        exact absurd (congrArg some hsame) hkept
      · exact hbrought
    exact Clears.attempt hsend fun _ => neat_pure ()

/-! ### Waiting -/

theorem neat_startListening : Neat referenceDues startListening := by
  refine clears_ask_ignored (OfObjects.ignores .startListening trivial) fun (before : Bool) => ?_
  cases before with
  | true => exact neat_pure ()
  | false =>
    refine clears_ask_ignored (OfObjects.ignores .listen trivial) fun (r : Except Error Unit) => ?_
    exact clears_ofExcept Set.Subset.rfl

theorem neat_lend (binding : Binding Handle) : Neat referenceDues (lend binding) := by
  refine clears_ask_ignored (OfObjects.ignores (.lend binding) trivial) fun (installed : Bool) => ?_
  cases installed with
  | true => exact neat_pure ()
  | false =>
    refine neat_startListening.bind fun _ => (neat_send (ignores_idle (by decide) _)).bind fun _ => ?_
    refine (neat_callFunction (ignores_byValue _ _)).bind fun _ => ?_
    exact clears_ask_ignored (OfObjects.ignores (.markInstalled binding.name) trivial) fun _ => neat_pure ()

/-- Every result is released until one counts as true. -/
theorem clears_poll (script : String) (arguments : List Json) (timeout interval : Nat)
    (deadline : Option Nat) (fuel : Nat) :
    Clears referenceDues ∅ (poll script arguments timeout interval deadline fuel).outcome
      (onSuccess fun h => refersTo h.remote) := by
  induction fuel with
  | zero => exact clears_never
  | succ fuel ih =>
    refine Clears.andThen (clears_callFunction script arguments) (fun remote => ?_) fun _ => Set.Subset.rfl
    dsimp only
    split
    · exact clears_wrap remote
    · refine Clears.andThen (clears_releaseResult remote) (fun _ => ?_) fun _ => Set.empty_subset _
      refine clears_clockThen fun now => ?_
      split
      · exact clears_throw (Set.empty_subset _)
      · exact clears_sleepThen ih

theorem clears_waitFor (script : String) (wait : FunctionWait) (bindings : List (Binding Handle))
    (args : List (Argument Handle)) :
    Clears referenceDues ∅ (waitFor patience script wait bindings args).outcome
      (onSuccess fun h => refersTo h.remote) := by
  refine (neat_forM neat_lend bindings).bind fun _ => ?_
  have hrest (deadline : Option Nat) : Clears referenceDues ∅ (do
      let arguments ← args.mapM callArgument
      poll script arguments wait.timeout (pollInterval wait.polling) deadline
        (turns patience wait.timeout (pollInterval wait.polling)) : side.Action Handle).outcome
      (onSuccess fun h => refersTo h.remote) :=
    (neat_mapM neat_callArgument args).bind fun arguments => clears_poll script arguments _ _ deadline _
  split
  · exact hrest none
  · have hclock : Neat referenceDues (Action.clock : side.Action Nat) :=
      Clears.bind (clears_perform (S := side.signature) (r := .clock)) fun _ => Set.Subset.rfl
    exact Neat.bind (Neat.bind (hclock.bind fun _ => neat_pure _) fun _ => neat_pure _) hrest

/-! ### Evaluations -/

/-- Ways to have a page function evaluated for a handle of its result. -/
inductive Evaluating where
  | call (script : String) (args : List (Argument Handle))
  | evaluate (h : Handle) (script : String) (args : List (Argument Handle))
  | wait (script : String) (when : FunctionWait) (bindings : List (Binding Handle)) (args : List (Argument Handle))

/-- What is done to that end. -/
def Evaluating.action (patience : Nat) : Evaluating → side.Action Handle
  | .call script args => callHandle script args
  | .evaluate h script args => h.evaluateHandle script args
  | .wait script when bindings args => waitFor patience script when bindings args

/-- The reference of the handle is what an evaluation leaves. -/
theorem clears_evaluating (o : Evaluating) :
    Clears referenceDues ∅ (o.action patience).outcome (onSuccess fun h => refersTo h.remote) := by
  have hwrap {a : side.Action RemoteObject} (ha : Clears referenceDues ∅ a.outcome (onSuccess refersTo)) :
      Clears referenceDues ∅ (a >>= wrap).outcome (onSuccess fun h => refersTo h.remote) :=
    Clears.andThen ha clears_wrap fun _ => Set.Subset.rfl
  cases o with
  | call script args =>
    exact (neat_mapM neat_callArgument args).bind fun arguments => hwrap (clears_callFunction script arguments)
  | evaluate h script args =>
    refine hwrap ((neat_handleArgument h).bind fun this => ?_)
    exact (neat_mapM neat_callArgument args).bind fun arguments => clears_callFunction script _
  | wait script when bindings args => exact clears_waitFor script when bindings args

/-! ### What becomes of a reference -/

/-- A reference that is owed is released, or owed in the end; where it goes into a handle it comes with it. -/
theorem released_or_owing {record : List (Instant P)} {id : String} (howed : id ∈ owed) :
    (∃ m ∈ record, id ∈ m.released) ∨ id ∈ referenceDues.owing (backend P patience) owed record := by
  induction record generalizing owed with
  | nil => exact Or.inr howed
  | cons m rest ih =>
    by_cases hreleased : id ∈ m.released
    · exact Or.inl ⟨m, List.mem_cons_self, hreleased⟩
    suffices hlater : id ∈ referenceDues.later owed m.query ((backend P patience).answer m.query m.world).1 from
      (ih hlater).imp_left fun ⟨m', hm', hlast⟩ => ⟨m', List.mem_cons_of_mem m hm', hlast⟩
    obtain ⟨w, q⟩ := m
    cases q with
    | wrap remote =>
      by_cases hrefers : id ∈ refersTo remote
      · exact Or.inr hrefers
      · exact Or.inl ⟨howed, hrefers⟩
    | command method doc =>
      refine Or.inl ⟨howed, fun hfreed => hreleased ?_⟩
      have hfrees : id ∈ (if method = "Runtime.releaseObject" then
        {id | (doc.member "objectId").string? = some id} else (∅ : Set String)) := hfreed
      split at hfrees
      · rename_i hmethod
        show id ∈ (if method = "Runtime.releaseObject" then ofOption (doc.member "objectId").string? else 0)
        rw [if_pos hmethod]
        exact mem_ofOption.mpr hfrees
      · exact absurd hfrees (Set.notMem_empty id)
    | _ => exact Or.inl ⟨howed, Set.notMem_empty id⟩

/-- The references in the reply to a call of a page function: that of the result, and that of what its
script has thrown. -/
def References (reply : Json) : Set String :=
  {id | ∃ e : Evaluation, Evaluation.reader.ofJson? reply = some e ∧ (id ∈ refersTo e.result ∨
    ∃ x : Exception, e.exception = some x ∧ ∃ t, x.thrown = some t ∧ id ∈ refersTo t)}

/-- The call was not for a reference, or its script has thrown. -/
def IsAside (doc reply : Json) : Prop :=
  (doc.member "returnByValue").bool? ≠ some false ∨
    ∃ e : Evaluation, Evaluation.reader.ofJson? reply = some e ∧ e.exception.isSome = true

theorem mem_givenBy {doc reply : Json} {id : String} (hid : id ∈ References reply) (haside : ¬ IsAside doc reply) :
    id ∈ givenBy doc (.ok reply) := by
  obtain ⟨⟨result, exception⟩, hread, hrefers⟩ := hid
  obtain ⟨hreference, hnothing⟩ := not_or.mp haside
  cases exception with
  | some x => exact absurd ⟨_, hread, rfl⟩ hnothing
  | none =>
    rcases hrefers with hresult | ⟨x, hx, -⟩
    · have hsome : result.objectId = some id := hresult
      simpa [givenBy, onSuccess, referencesIn, not_not.mp hreference, hread, reference] using hsome
    · cases hx

/-- When an evaluation is over, amid whatever others do, each reference that was handed over to it has been
released since, or is that of the handle which it has ended with.  Of one that has thrown, and of a call for
the value alone, nothing is promised. -/
theorem freed_or_returned {o : Evaluating} {start last : World P} {own : List (Instant P)} {r : Except Error Handle}
    (h : Amid (backend P patience) start (o.action patience).outcome own last (.done r))
    {before rest : List (Instant P)} {w : World P} {doc reply : Json} {id : String}
    (hsplit : own = before ++ ⟨w, .command "Runtime.callFunctionOn" doc⟩ :: rest)
    (hreply : outcomeIn w "Runtime.callFunctionOn" doc = .ok reply) (hid : id ∈ References reply) :
    (∃ m ∈ rest, id ∈ m.released) ∨ (∃ handle, r = .ok handle ∧ handle.remote.objectId = some id) ∨
      IsAside doc reply := by
  have hends : Ends (backend P patience) (o.action patience).outcome own r := h.walk
  by_cases haside : IsAside doc reply
  · exact Or.inr (Or.inr haside)
  have hgiven : id ∈ referenceDues.later (referenceDues.owing (backend P patience) ∅ before)
      (Query.command "Runtime.callFunctionOn" doc) (w.answer (.command "Runtime.callFunctionOn" doc)).1 := by
    refine Or.inr ?_
    show id ∈ givenBy doc (outcomeIn w "Runtime.callFunctionOn" doc)
    rw [hreply]
    exact mem_givenBy hid haside
  have hsettled : (∃ m ∈ rest, id ∈ m.released) ∨ id ∈ referenceDues.owing (backend P patience) _ rest :=
    released_or_owing hgiven
  rcases hsettled with hreleased | howing
  · exact Or.inl hreleased
  · have hleft : id ∈ onSuccess (fun h : Handle => refersTo h.remote) r := by
      refine (clears_evaluating o).owing_subset hends ?_
      rw [hsplit]
      exact Dues.owing_append.superset howing
    cases r with
    | ok handle => exact Or.inr (Or.inl ⟨handle, rfl, hleft⟩)
    | error e => exact absurd hleft (Set.notMem_empty id)

/-- The query is a command of such a method. -/
def sends (method : String) (m : Instant P) : Bool :=
  match m.query with
  | .command sent _ => sent == method
  | _ => false

theorem exists_of_sends {method : String} {record : List (Instant P)} (h : record.any (sends method) = true) :
    ∃ w doc, (⟨w, .command method doc⟩ : Instant P) ∈ record := by
  obtain ⟨⟨w, q⟩, hmem, hsends⟩ := List.any_eq_true.mp h
  cases q with
  | command sent doc =>
    obtain rfl : sent = method := beq_iff_eq.mp hsends
    exact ⟨w, doc, hmem⟩
  | _ => cases hsends

theorem not_released_of_sends {record : List (Instant P)} (h : record.any (sends "Runtime.releaseObject") = false)
    {m : Instant P} (hm : m ∈ record) (id : String) : id ∉ m.released := by
  obtain ⟨w, q⟩ := m
  cases q with
  | command method doc =>
    have hother : ¬ method = "Runtime.releaseObject" :=
      fun hsame => List.any_eq_false.mp h _ hm (beq_iff_eq.mpr hsame)
    show id ∉ (if method = "Runtime.releaseObject" then _ else (0 : Multiset String))
    rw [if_neg hother]
    exact Multiset.notMem_zero id
  | _ => exact Multiset.notMem_zero id

/-- A new world of a page that calls the program. -/
def callerWorld : World caller := .init () "bundle"

/-- The reference to the result of an evaluation goes to the caller. -/
theorem returned_by_caller :
    ∃ (own before rest : List (Instant caller)) (last w : World caller) (r : Except Error Handle) (doc : Json),
      Amid (backend caller 0) callerWorld (Evaluating.action 0 (.call "f" [])).outcome own last (.done r) ∧
      own = before ++ ⟨w, .command "Runtime.callFunctionOn" doc⟩ :: rest ∧
      ((∃ m ∈ rest, "arguments" ∈ m.released) ∨
        (∃ handle, r = .ok handle ∧ handle.remote.objectId = some "arguments") ∨
        IsAside doc (callerReply "Runtime.callFunctionOn")) := by
  have hsends : (atOnce 0 callerWorld (Evaluating.action 0 (.call "f" [])).outcome).1.any
    (sends "Runtime.callFunctionOn") = true := by decide +kernel
  obtain ⟨w, doc, hmem⟩ := exists_of_sends hsends
  obtain ⟨before, rest, hsplit⟩ := List.append_of_mem hmem
  obtain ⟨r, hr⟩ := Option.isSome_iff_exists.mp
    (show (result? (atOnce 0 callerWorld (Evaluating.action 0 (.call "f" [])).outcome).2.2).isSome = true by
      decide +kernel)
  have hcall := eq_of_result? hr ▸ amid_atOnce 0 callerWorld (Evaluating.action 0 (.call "f" [])).outcome
  exact ⟨_, before, rest, _, w, _, doc, hcall, hsplit,
    freed_or_returned hcall hsplit rfl ⟨_, rfl, Or.inl rfl⟩⟩

/-! ### A page whose scripts throw -/

/-- What a page replies whose scripts throw. -/
def throwerReply (method : String) : Json :=
  if method = "Runtime.evaluate" then .object [("result", .object [("objectId", .string "global")])]
  else .object [("exceptionDetails", .object [("exception", .object [("objectId", .string "thrown")])])]

/-- A page whose scripts throw. -/
def thrower : Peer where
  State := Unit
  command method _ _ := (⟨0, .ok (throwerReply method)⟩, [], ())
  listen _ := .ok ()
  close _ := (.ok (), ())

/-- A new world of such a page. -/
def throwerWorld : World thrower := .init () "bundle"

/-- Nobody releases the reference to what was thrown. -/
theorem lost_by_thrower :
    ∃ (own : List (Instant thrower)) (last w : World thrower) (e : Error) (doc reply : Json),
      Amid (backend thrower 0) throwerWorld (Evaluating.action 0 (.call "f" [])).outcome own last
        (.done (.error e)) ∧
      (⟨w, .command "Runtime.callFunctionOn" doc⟩ : Instant thrower) ∈ own ∧
      outcomeIn w "Runtime.callFunctionOn" doc = .ok reply ∧ "thrown" ∈ References reply ∧
      ∀ m ∈ own, "thrown" ∉ m.released := by
  have hfailed : (atOnce 0 throwerWorld (Evaluating.action 0 (.call "f" [])).outcome).2.2 =
      .done (.error (.scriptFailed "Evaluation failed")) := eq_of_failure? (by decide +kernel)
  have hsends : (atOnce 0 throwerWorld (Evaluating.action 0 (.call "f" [])).outcome).1.any
    (sends "Runtime.callFunctionOn") = true := by decide +kernel
  obtain ⟨w, doc, hmem⟩ := exists_of_sends hsends
  refine ⟨_, (atOnce 0 throwerWorld (Evaluating.action 0 (.call "f" [])).outcome).2.1, w, _, doc, _,
    hfailed ▸ amid_atOnce 0 _ _, hmem, rfl, ⟨_, rfl, Or.inr ⟨_, rfl, _, rfl, rfl⟩⟩, fun m hm => ?_⟩
  exact not_released_of_sends (by decide +kernel) hm "thrown"

end Wayfind.Remote
