/-
The references that commands name.

A command names objects of the page by their references: the one it is sent to, and those among the
arguments of a call.  Whatever is done, its commands name no object but the global one, those of handles
that were looked at before and are not disposed, and those that the page has just spoken of; one lemma for
each action says so, whatever the worlds are that it finds.  Items of an array, scrolling into view and the
accessibility tree are asked of a handle without a look at it: the reference of that one has to be allowed
beforehand.
-/
import Wayfind.Proofs.Remote.References

namespace Wayfind.Remote

open Activity (Grants Minds asks_sleep minds_ask minds_forM minds_mapM minds_of_asks
  minds_ofExcept minds_pure minds_throw)
open PageSide (Action)
open Protocol (RemoteObject Evaluation)

variable {P : Peer} {patience : Nat} {α β : Type} {allowed : Set String}

/-! ### References that commands name -/

/-- The reference in an argument of a call, or in the parameters of a command. -/
def refersIn (doc : Json) : Set String := {id | (doc.member "objectId").string? = some id}

/-- The references in the arguments of a call. -/
def refersAmong (args : List Json) : Set String := {id | ∃ arg ∈ args, id ∈ refersIn arg}

/-- The references that a command names. -/
def Query.names : Query → Set String
  | .command _ doc => refersIn doc ∪ refersAmong ((doc.member "arguments").items?.getD [])
  | _ => ∅

/-- The reference that an evaluation speaks of. -/
def spokenOf (reply : Json) : Set String :=
  {id | ∃ e : Evaluation, Evaluation.reader.ofJson? reply = some e ∧ id ∈ refersTo e.result}

/-- The references that an answer lets commands name: that of a handle that is not disposed, that of the
global object, and that of the result of an evaluation. -/
def Query.lets : (q : Query) → q.Answer → Set String
  | .isDisposed h, (disposed : Bool) => if disposed then ∅ else refersTo h.remote
  | .dispose h, (first : Bool) => if first then refersTo h.remote else ∅
  | .global, known => {id | known = some id}
  | .command _ _, d => onSuccess spokenOf (Delivery.outcome d)
  | _, _ => ∅

/-- References have to be let before commands name them. -/
def referenceGrants : Grants side.signature String where
  needs := Query.names
  grants := Query.lets

/-- The action names no other references than are allowed or let meanwhile; it ends with more. -/
abbrev Names (allowed : Set String) (a : side.Action α) (known : α → Set String) : Prop :=
  Minds referenceGrants allowed a known

/-! ### Commands -/

theorem names_sleep (ms : Nat) : Names allowed (Action.sleep ms) fun _ => ∅ :=
  minds_of_asks (asks_sleep (P := fun r => referenceGrants.needed r = ∅) rfl (fun _ => rfl) ms)

theorem names_command {method : String} {doc : Json} (h : Query.names (.command method doc) ⊆ allowed) :
    Names allowed (command method doc) spokenOf := by
  refine minds_ask (P := side) h fun (d : Delivery) => ?_
  have hend : Names (onSuccess spokenOf d.outcome ∪ allowed) (Action.ofExcept d.outcome : side.Action Json)
      spokenOf := by
    cases houtcome : d.outcome with
    | ok reply => exact minds_pure Set.subset_union_left
    | error e => exact minds_throw e
  dsimp only
  split
  · exact (names_sleep _).next fun _ => hend
  · exact hend

theorem names_send {method : String} {doc : Json} (h : Query.names (.command method doc) ⊆ allowed) :
    Names allowed (send method doc) spokenOf := by
  refine Minds.attempt (names_command h) (fun reply => minds_pure Set.subset_union_left) fun e => ?_
  dsimp only
  split
  · exact minds_ask (P := side) (q := .forget) (Set.empty_subset _) fun _ => minds_throw e
  · exact minds_throw e

theorem names_read (reader : Json.Reader α) (reply : Json) : Names allowed (read reader reply) fun _ => ∅ := by
  unfold read
  split
  · exact minds_pure (Set.empty_subset _)
  · exact minds_throw _

/-- The result of an evaluation may be named. -/
theorem names_readEvaluation {reply : Json} (h : spokenOf reply ⊆ allowed) :
    Names allowed (read Evaluation.reader reply) fun e => refersTo e.result := by
  unfold read
  cases hread : Evaluation.reader.ofJson? reply with
  | none => exact minds_throw _
  | some e => exact minds_pure fun id hid => h ⟨e, hread, hid⟩

/-- The parameters name nothing. -/
theorem names_nothing {method : String} {doc : Json} (hid : (doc.member "objectId").string? = none)
    (harguments : (doc.member "arguments").items? = none) :
    Query.names (.command method doc) ⊆ allowed := by
  rintro x (hx | ⟨arg, harg, -⟩)
  · exact absurd (hid.symm.trans hx) nofun
  · rw [harguments] at harg
    exact absurd harg List.not_mem_nil

/-- The parameters name one object. -/
theorem names_one {method id : String} {doc : Json} (hid : (doc.member "objectId").string? = some id)
    (harguments : (doc.member "arguments").items? = none) (hallowed : id ∈ allowed) :
    Query.names (.command method doc) ⊆ allowed := by
  rintro x (hx | ⟨arg, harg, -⟩)
  · rwa [← Option.some.inj (hid.symm.trans hx)]
  · rw [harguments] at harg
    exact absurd harg List.not_mem_nil

theorem names_globalId : Names allowed globalId fun id => {id} := by
  refine minds_ask (P := side) (q := .global) (Set.empty_subset _) fun (known : Option String) => ?_
  cases known with
  | some id => exact minds_pure (Set.singleton_subset_iff.mpr (Or.inl rfl))
  | none =>
    refine (names_command (names_nothing rfl rfl)).bind fun reply => ?_
    refine (names_readEvaluation Set.subset_union_left).bind fun e => ?_
    cases hid : e.result.objectId with
    | none => exact minds_throw _
    | some id =>
      refine minds_ask (P := side) (q := .rememberGlobal id) (Set.empty_subset _) fun _ => ?_
      exact minds_pure (Set.singleton_subset_iff.mpr (Or.inr (Or.inl hid)))

/-- A call names the global object and its arguments; its result may be named later. -/
theorem names_callFunction {script : String} {arguments : List Json} {byValue : Bool}
    (h : refersAmong arguments ⊆ allowed) : Names allowed (callFunction script arguments byValue) refersTo := by
  refine names_globalId.bind fun id => ?_
  have hnames : Query.names (.command "Runtime.callFunctionOn" (callParams script arguments byValue id)) ⊆
      {id} ∪ allowed := by
    rintro x (hx | hx)
    · exact Or.inl (Option.some.inj hx).symm
    · exact Or.inr (h hx)
  refine (names_send hnames).bind fun reply => ?_
  refine (names_readEvaluation Set.subset_union_left).bind fun e => ?_
  cases e.exception with
  | some x => exact minds_throw _
  | none => exact minds_pure Set.subset_union_left

theorem names_wrap (remote : RemoteObject) : Names allowed (wrap remote) fun _ => ∅ := by
  have hthen : Names allowed (wrap remote >>= pure) fun _ => ∅ :=
    minds_ask (P := side) (q := .wrap remote) (Set.empty_subset _) fun _ => minds_pure (Set.empty_subset _)
  rwa [bind_pure] at hthen

/-- Only of a handle that is not disposed an argument is made. -/
theorem names_handleArgument (h : Handle) : Names allowed (handleArgument h) refersIn := by
  refine minds_ask (P := side) (q := .isDisposed h) (Set.empty_subset _) fun (disposed : Bool) => ?_
  cases disposed with
  | true => exact minds_throw _
  | false =>
    dsimp only
    cases hid : h.remote.objectId with
    | none => exact minds_pure fun x hx => absurd hx nofun
    | some id => exact minds_pure fun x hx => Or.inl (hid.trans hx)

theorem names_callArgument (a : Argument Handle) : Names allowed (callArgument a) refersIn := by
  cases a with
  | handle h => exact names_handleArgument h
  | _ => exact minds_pure fun x hx => absurd hx nofun

theorem names_callArguments (args : List (Argument Handle)) :
    Names allowed (args.mapM callArgument) refersAmong := minds_mapM names_callArgument args

/-! ### What is done with handles -/

theorem names_call (script : String) (args : List (Argument Handle)) :
    Names allowed (call script args) fun _ => ∅ :=
  (names_callArguments args).bind fun _ => (names_callFunction Set.subset_union_left).bind fun _ =>
    minds_pure (Set.empty_subset _)

theorem names_callHandle (script : String) (args : List (Argument Handle)) :
    Names allowed (callHandle script args) fun _ => ∅ :=
  (names_callArguments args).bind fun _ =>
    (names_callFunction Set.subset_union_left).bind fun remote => names_wrap remote

theorem names_invoke (h : Handle) (script : String) (args : List (Argument Handle)) (byValue : Bool) :
    Names allowed (h.invoke script args byValue) refersTo := by
  refine (names_handleArgument h).bind fun this => (names_callArguments args).bind fun arguments => ?_
  refine names_callFunction ?_
  rintro x ⟨arg, harg, hx⟩
  rcases List.mem_cons.mp harg with rfl | hrest
  · exact Or.inr (Or.inl hx)
  · exact Or.inl ⟨arg, hrest, hx⟩

theorem names_evaluate (h : Handle) (script : String) (args : List (Argument Handle)) :
    Names allowed (h.evaluate script args) fun _ => ∅ :=
  (names_invoke h script args true).bind fun _ => minds_pure (Set.empty_subset _)

theorem names_evaluateHandle (h : Handle) (script : String) (args : List (Argument Handle)) :
    Names allowed (h.evaluateHandle script args) fun _ => ∅ :=
  (names_invoke h script args false).bind fun remote => names_wrap remote

theorem names_jsonValue (h : Handle) : Names allowed h.jsonValue fun _ => ∅ := by
  unfold Handle.jsonValue
  cases h.remote.objectId with
  | none => exact minds_pure (Set.empty_subset _)
  | some id => exact names_evaluate h _ _

/-- Only a handle that has not been disposed before is released. -/
theorem names_dispose (h : Handle) : Names allowed h.dispose fun _ => ∅ := by
  refine minds_ask (P := side) (q := .dispose h) (Set.empty_subset _) fun (first : Bool) => ?_
  cases first with
  | false => exact minds_pure (Set.empty_subset _)
  | true =>
    rw [if_pos rfl]
    cases hid : h.remote.objectId with
    | none => exact minds_pure (Set.empty_subset _)
    | some id =>
      exact (names_send (names_one rfl rfl (Or.inl hid))).bind fun _ => minds_pure (Set.empty_subset _)

/-! ### Input -/

/-- A command that names nothing. -/
theorem names_plainSend {method : String} {doc : Json} (hid : (doc.member "objectId").string? = none)
    (harguments : (doc.member "arguments").items? = none) : Names allowed (send method doc) fun _ => ∅ :=
  (names_send (names_nothing hid harguments)).mono fun _ => Set.empty_subset _

theorem names_mouse (kind : String) (point : Float × Float) (button : String) (count : Nat) :
    Names allowed (Handle.mouse kind point button count) fun _ => ∅ :=
  (names_plainSend rfl rfl).next fun _ => minds_pure (Set.empty_subset _)

theorem names_box (h : Handle) : Names allowed h.box fun _ => ∅ := by
  refine (names_evaluate h _ _).next fun doc => (names_read _ doc).next fun b => ?_
  dsimp only
  split
  · exact minds_throw _
  · exact minds_pure (Set.empty_subset _)

theorem names_click (h : Handle) (o : ClickOptions) : Names allowed (h.click o) fun _ => ∅ := by
  refine (names_box h).next fun b => (names_mouse _ _ _ _).next fun _ => minds_forM (fun count => ?_) _
  refine (names_mouse _ _ _ _).next fun _ => ?_
  dsimp only
  split
  · exact (names_sleep _).next fun _ => names_mouse _ _ _ _
  · exact names_mouse _ _ _ _

theorem names_hover (h : Handle) : Names allowed h.hover fun _ => ∅ :=
  (names_box h).next fun _ => names_mouse _ _ _ _

theorem names_focus (h : Handle) : Names allowed h.focus fun _ => ∅ :=
  (names_evaluate h _ _).next fun _ => minds_pure (Set.empty_subset _)

theorem names_typeText (h : Handle) (text : String) : Names allowed (h.typeText text) fun _ => ∅ :=
  (names_focus h).next fun _ => minds_forM (fun _ => (names_plainSend rfl rfl).next fun _ =>
    minds_pure (Set.empty_subset _)) _

theorem names_select (h : Handle) (values : List String) : Names allowed (h.select values) fun _ => ∅ :=
  (names_evaluate h _ _).next fun _ => names_read _ _

theorem names_isIntersecting (h : Handle) (part : Float) : Names allowed (h.isIntersecting part) fun _ => ∅ :=
  (names_evaluate h _ _).next fun _ => minds_pure (Set.empty_subset _)

/-! ### What is asked of a handle without a look at it -/

section Unseen

variable {h : Handle} (hallowed : refersTo h.remote ⊆ allowed)
include hallowed

theorem names_referenceThen {missing : String} {f : Json → side.Action β} {known : β → Set String}
    (hf : ∀ id ∈ allowed, Names allowed (f (.string id)) known) :
    Names allowed (h.reference missing >>= f) known := by
  unfold Handle.reference
  cases hid : h.remote.objectId with
  | none => exact (minds_throw (.internal missing) : Names allowed (MonadExcept.throw _) known)
  | some id =>
    rw [pure_bind]
    exact hf id (hallowed hid)

theorem names_arrayItems : Names allowed h.arrayItems fun _ => ∅ := by
  refine names_referenceThen hallowed fun id hid => ?_
  refine (names_send (names_one rfl rfl hid)).bind fun reply => (names_read _ reply).next fun properties => ?_
  have hwrap (item : Nat × RemoteObject) : Names (spokenOf reply ∪ allowed) (wrap item.2) fun _ => ∅ :=
    names_wrap item.2
  exact (minds_mapM hwrap _).mono fun _ => Set.empty_subset _

theorem names_scrollIntoView : Names allowed h.scrollIntoView fun _ => ∅ := by
  refine names_referenceThen hallowed fun id hid => ?_
  refine Minds.attempt (names_send (names_one rfl rfl hid)) (fun _ => minds_pure (Set.empty_subset _)) fun _ => ?_
  exact (names_evaluate h _ _).next fun _ => minds_pure (Set.empty_subset _)

theorem names_accessibleNodes (name role : Option String) :
    Names allowed (h.accessibleNodes name role) fun _ => ∅ := by
  refine names_referenceThen hallowed fun id hid => ?_
  refine (names_send (names_one (?_ : _ = some id) ?_ hid)).bind fun reply => names_read _ reply
  · cases name <;> cases role <;> rfl
  · cases name <;> cases role <;> rfl

end Unseen

theorem names_adopt (id : Int) : Names allowed (adopt id) fun _ => ∅ :=
  (names_plainSend rfl rfl).next fun _ => (names_read _ _).next fun remote => names_wrap remote

theorem names_utility : Names allowed utility fun _ => ∅ := by
  refine minds_ask (P := side) (q := .utility) (Set.empty_subset _) fun (known : Option Handle) => ?_
  cases known with
  | some h => exact minds_pure (Set.empty_subset _)
  | none =>
    refine minds_ask (P := side) (q := .utilitySource) (Set.empty_subset _) fun source => ?_
    refine (names_command (names_nothing rfl rfl)).bind fun reply => (names_read _ reply).next fun e => ?_
    cases e.exception with
    | some x => exact minds_throw _
    | none =>
      refine (names_wrap e.result).next fun h => ?_
      exact minds_ask (P := side) (q := .rememberUtility h) (Set.empty_subset _) fun _ =>
        minds_pure (Set.empty_subset _)

/-! ### Waiting -/

theorem names_startListening : Names allowed startListening fun _ => ∅ := by
  refine minds_ask (P := side) (q := .startListening) (Set.empty_subset _) fun (before : Bool) => ?_
  cases before with
  | true => exact minds_pure (Set.empty_subset _)
  | false => exact minds_ask (P := side) (q := .listen) (Set.empty_subset _) fun (r : Except Error Unit) =>
      minds_ofExcept

theorem names_lend (binding : Binding Handle) : Names allowed (lend binding) fun _ => ∅ := by
  refine minds_ask (P := side) (q := .lend binding) (Set.empty_subset _) fun (installed : Bool) => ?_
  cases installed with
  | true => exact minds_pure (Set.empty_subset _)
  | false =>
    refine names_startListening.next fun _ => (names_plainSend rfl rfl).next fun _ => ?_
    refine (names_callFunction ?_).bind fun _ => ?_
    · rintro x ⟨arg, harg, hx⟩
      obtain rfl | hrest := List.mem_cons.mp harg
      · exact absurd hx nofun
      · rw [List.mem_singleton.mp hrest] at hx
        exact absurd hx nofun
    · exact minds_ask (P := side) (q := .markInstalled binding.name) (Set.empty_subset _) fun _ =>
        minds_pure (Set.empty_subset _)

/-- What is released is the result of the call. -/
theorem names_releaseResult {remote : RemoteObject} (h : refersTo remote ⊆ allowed) :
    Names allowed (releaseResult remote) fun _ => ∅ := by
  unfold releaseResult
  cases hid : remote.objectId with
  | none => exact minds_pure (Set.empty_subset _)
  | some id =>
    exact Minds.attempt (names_send (names_one rfl rfl (h hid))) (fun _ => minds_pure (Set.empty_subset _))
      fun _ => minds_pure (Set.empty_subset _)

theorem names_clock : Names allowed (Action.clock : side.Action Nat) fun _ => ∅ :=
  minds_of_asks ((Activity.asks_perform (P := fun r => referenceGrants.needed r = ∅) rfl).bind fun _ => trivial)

theorem names_poll {arguments : List Json} (h : refersAmong arguments ⊆ allowed) (script : String)
    (timeout interval : Nat) (deadline : Option Nat) (fuel : Nat) :
    Names allowed (poll script arguments timeout interval deadline fuel) fun _ => ∅ := by
  induction fuel generalizing allowed with
  | zero => exact minds_of_asks (Activity.asks_never rfl)
  | succ fuel ih =>
    refine (names_callFunction h).bind fun remote => ?_
    dsimp only
    split
    · exact names_wrap remote
    · refine (names_releaseResult Set.subset_union_left).next fun _ => names_clock.next fun now => ?_
      split
      · exact minds_throw _
      · exact (names_sleep _).next fun _ => ih (h.trans Set.subset_union_right)

theorem names_waitFor (script : String) (wait : FunctionWait) (bindings : List (Binding Handle))
    (args : List (Argument Handle)) : Names allowed (waitFor patience script wait bindings args) fun _ => ∅ := by
  refine (minds_forM names_lend bindings).next fun _ => ?_
  have hrest (deadline : Option Nat) : Names allowed (do
      let arguments ← args.mapM callArgument
      poll script arguments wait.timeout (pollInterval wait.polling) deadline
        (turns patience wait.timeout (pollInterval wait.polling)) : side.Action Handle) fun _ => ∅ :=
    (names_callArguments args).bind fun arguments => names_poll Set.subset_union_left script _ _ deadline _
  split
  · exact hrest none
  · refine Minds.next (Minds.next (names_clock.next fun _ => minds_pure (Set.empty_subset _)) fun _ =>
      minds_pure (Set.empty_subset _)) hrest

end Wayfind.Remote
