/-
What is done with a handle that has been disposed.

Whatever is done in turn after a handle has been disposed, no command names its reference unless that is
the one of something else too, and whoever looks at the handle fails (`abandoned_of_disposed`).  Items of an
array, scrolling into view and the accessibility tree are asked of a handle without a look at it: there the
page is still told the reference (`named_by_items`).
-/
import Wayfind.Proofs.Remote.Naming

namespace Wayfind.Remote

open Activity (Amid Ends Heeds minds_pure)
open PageSide (Action)

variable {P : Peer} {patience : Nat} {α β : Type} {allowed : Set String}

/-! ### One thing after another -/

/-- Something that can be done with handles. -/
inductive Use where
  | evaluate (h : Handle) (script : String) (args : List (Argument Handle))
  | evaluateHandle (h : Handle) (script : String) (args : List (Argument Handle))
  | jsonValue (h : Handle)
  | arrayItems (h : Handle)
  | click (h : Handle) (o : ClickOptions)
  | hover (h : Handle)
  | focus (h : Handle)
  | typeText (h : Handle) (text : String)
  | select (h : Handle) (values : List String)
  | scrollIntoView (h : Handle)
  | isIntersecting (h : Handle) (part : Float)
  | accessibleNodes (h : Handle) (name role : Option String)
  | dispose (h : Handle)
  | call (script : String) (args : List (Argument Handle))
  | callHandle (script : String) (args : List (Argument Handle))
  | waitFor (script : String) (when : FunctionWait) (bindings : List (Binding Handle)) (args : List (Argument Handle))
  | utility
  | adopt (id : Int)

/-- An action whose value is not wanted. -/
def void (a : side.Action α) : side.Action Unit := do
  let _ ← a

/-- What is done. -/
def Use.action (patience : Nat) : Use → side.Action Unit
  | .evaluate h script args => void (h.evaluate script args)
  | .evaluateHandle h script args => void (h.evaluateHandle script args)
  | .jsonValue h => void h.jsonValue
  | .arrayItems h => void h.arrayItems
  | .click h o => h.click o
  | .hover h => h.hover
  | .focus h => h.focus
  | .typeText h text => h.typeText text
  | .select h values => void (h.select values)
  | .scrollIntoView h => h.scrollIntoView
  | .isIntersecting h part => void (h.isIntersecting part)
  | .accessibleNodes h name role => void (h.accessibleNodes name role)
  | .dispose h => h.dispose
  | .call script args => void (Remote.call script args)
  | .callHandle script args => void (Remote.callHandle script args)
  | .waitFor script when bindings args => void (Remote.waitFor patience script when bindings args)
  | .utility => void Remote.utility
  | .adopt id => void (Remote.adopt id)

/-- The handles among arguments. -/
def handlesIn (args : List (Argument Handle)) : List Handle :=
  args.filterMap fun
    | .handle h => some h
    | _ => none

/-- The handles that are looked at before anything is done with them. -/
def Use.seen : Use → List Handle
  | .evaluate h _ args | .evaluateHandle h _ args => h :: handlesIn args
  | .jsonValue h => if h.remote.objectId.isSome then [h] else []
  | .click h _ | .hover h | .focus h | .typeText h _ | .select h _ | .isIntersecting h _ => [h]
  | .call _ args | .callHandle _ args | .waitFor _ _ _ args => handlesIn args
  | _ => []

/-- The handle of which the page is asked without a look at it. -/
def Use.unseen : Use → List Handle
  | .arrayItems h | .scrollIntoView h | .accessibleNodes h _ _ => [h]
  | _ => []

/-- One use after another, whether they succeed or not. -/
def inTurn (patience : Nat) : List Use → side.Task (List (Except Error Unit))
  | [] => .done []
  | use :: rest => do
    let r ← (use.action patience).outcome
    let rs ← inTurn patience rest
    return r :: rs

/-- The references of handles that are not looked at. -/
def unseenIn (uses : List Use) : Set String := {id | ∃ use ∈ uses, ∃ k ∈ use.unseen, id ∈ refersTo k.remote}

theorem names_void {a : side.Action α} (h : Names allowed a fun _ => ∅) : Names allowed (void a) fun _ => ∅ :=
  h.next fun _ => minds_pure (Set.empty_subset _)

theorem names_use {use : Use} (hunseen : ∀ k ∈ use.unseen, refersTo k.remote ⊆ allowed) :
    Names allowed (use.action patience) fun _ => ∅ := by
  cases use with
  | evaluate h script args => exact names_void (names_evaluate h script args)
  | evaluateHandle h script args => exact names_void (names_evaluateHandle h script args)
  | jsonValue h => exact names_void (names_jsonValue h)
  | arrayItems k => exact names_void (names_arrayItems (hunseen k (List.mem_singleton_self k)))
  | click h o => exact names_click h o
  | hover h => exact names_hover h
  | focus h => exact names_focus h
  | typeText h text => exact names_typeText h text
  | select h values => exact names_void (names_select h values)
  | scrollIntoView k => exact names_scrollIntoView (hunseen k (List.mem_singleton_self k))
  | isIntersecting h part => exact names_void (names_isIntersecting h part)
  | accessibleNodes k name role =>
    exact names_void (names_accessibleNodes (hunseen k (List.mem_singleton_self k)) name role)
  | dispose h => exact names_dispose h
  | call script args => exact names_void (names_call script args)
  | callHandle script args => exact names_void (names_callHandle script args)
  | waitFor script when bindings args => exact names_void (names_waitFor script when bindings args)
  | utility => exact names_void names_utility
  | adopt id => exact names_void (names_adopt id)

theorem heeds_inTurn {uses : List Use} (h : unseenIn uses ⊆ allowed) :
    Heeds referenceGrants allowed (inTurn patience uses) fun _ => allowed := by
  induction uses with
  | nil => exact Set.Subset.rfl
  | cons use rest ih =>
    have hfirst : Names allowed (use.action patience) fun _ => ∅ :=
      names_use fun k hk id hid => h ⟨use, List.mem_cons_self, k, hk, hid⟩
    have hrest : unseenIn rest ⊆ allowed :=
      fun id ⟨later, hlater, hunseen⟩ => h ⟨later, List.mem_cons_of_mem _ hlater, hunseen⟩
    have hkeeps : Heeds referenceGrants allowed (use.action patience).outcome fun _ => allowed :=
      Heeds.mono hfirst fun r => by
        cases r with
        | ok v => exact Set.subset_union_right
        | error e => exact Set.Subset.rfl
    exact hkeeps.bind fun r => (ih hrest).bind fun rs => Set.Subset.rfl

/-! ### Disposed handles -/

/-- Wherever the handle is disposed, the action fails. -/
def Refuses (P : Peer) (patience : Nat) (h : Handle) (a : side.Action α) : Prop :=
  ∀ (record : List (Instant P)) (r : Except Error α), (∀ m ∈ record, m.world.isDisposed h = true) →
    Concludes P patience a record r → ∃ e, r = .error e

section Refuses

variable {h k : Handle} {a : side.Action α} {f : α → side.Action β}

theorem Refuses.andThen (ha : Refuses P patience h a) : Refuses P patience h (a >>= f) := by
  intro record r hgone hr
  rcases Concludes.andThen hr with ⟨e, rfl, -⟩ | ⟨first, second, v, rfl, hfirst, -⟩
  · exact ⟨e, rfl⟩
  · obtain ⟨e, he⟩ := ha first _ (fun m hm => hgone m (List.mem_append_left _ hm)) hfirst
    cases he

theorem Refuses.after (hf : ∀ v, Refuses P patience h (f v)) : Refuses P patience h (a >>= f) := by
  intro record r hgone hr
  rcases Concludes.andThen hr with ⟨e, rfl, -⟩ | ⟨first, second, v, rfl, -, hsecond⟩
  · exact ⟨e, rfl⟩
  · exact hf v second r (fun m hm => hgone m (List.mem_append_right _ hm)) hsecond

variable (hsame : k.id = h.id)
include hsame

theorem refuses_handleArgument : Refuses P patience h (handleArgument k) := by
  intro record r hgone hr
  obtain ⟨w, rest, rfl, hrest⟩ := Concludes.ask hr
  have hdisposed : (w.answer (.isDisposed k)).1 = true := by
    show (w.ledger[k.id]?).getD true = true
    rw [hsame]
    exact hgone _ List.mem_cons_self
  rw [hdisposed] at hrest
  exact ⟨_, (Concludes.ofThrow hrest).2⟩

theorem refuses_callArguments {args : List (Argument Handle)} (hk : k ∈ handlesIn args) :
    Refuses P patience h (args.mapM callArgument) := by
  induction args with
  | nil => exact absurd hk List.not_mem_nil
  | cons arg rest ih =>
    rw [List.mapM_cons]
    cases arg with
    | handle h' =>
      rcases List.mem_cons.mp hk with rfl | hrest
      · exact (refuses_handleArgument hsame).andThen
      · exact Refuses.after fun _ => (ih hrest).andThen
    | _ => exact Refuses.after fun _ => (ih hk).andThen

theorem refuses_invoke (script : String) (args : List (Argument Handle)) (byValue : Bool) :
    Refuses P patience h (k.invoke script args byValue) := (refuses_handleArgument hsame).andThen

theorem refuses_evaluate (script : String) (args : List (Argument Handle)) :
    Refuses P patience h (k.evaluate script args) := (refuses_invoke hsame script args true).andThen

theorem refuses_box : Refuses P patience h k.box := (refuses_evaluate hsame _ _).andThen

theorem refuses_focus : Refuses P patience h k.focus := (refuses_evaluate hsame _ _).andThen

omit hsame in
/-- Whoever looks at a disposed handle fails. -/
theorem refuses_use {use : Use} (hk : ∃ k ∈ use.seen, k.id = h.id) :
    Refuses P patience h (use.action patience) := by
  obtain ⟨k, hk, hsame⟩ := hk
  cases use with
  | evaluate h' script args | evaluateHandle h' script args =>
    rcases List.mem_cons.mp hk with rfl | hargs
    · exact (refuses_invoke hsame script args _).andThen.andThen
    · exact (Refuses.after fun _ => (refuses_callArguments hsame hargs).andThen).andThen.andThen
  | jsonValue h' =>
    change k ∈ (if h'.remote.objectId.isSome then [h'] else []) at hk
    cases hid : h'.remote.objectId with
    | none =>
      rw [hid] at hk
      exact absurd hk List.not_mem_nil
    | some id =>
      rw [hid] at hk
      obtain rfl := List.mem_singleton.mp hk
      refine Refuses.andThen ?_
      unfold Handle.jsonValue
      rw [hid]
      exact refuses_evaluate hsame _ _
  | click h' o =>
    obtain rfl := List.mem_singleton.mp hk
    exact (refuses_box hsame).andThen
  | hover h' =>
    obtain rfl := List.mem_singleton.mp hk
    exact (refuses_box hsame).andThen
  | focus h' =>
    obtain rfl := List.mem_singleton.mp hk
    exact refuses_focus hsame
  | typeText h' text =>
    obtain rfl := List.mem_singleton.mp hk
    exact (refuses_focus hsame).andThen
  | select h' values =>
    obtain rfl := List.mem_singleton.mp hk
    exact (refuses_evaluate hsame _ _).andThen.andThen
  | isIntersecting h' part =>
    obtain rfl := List.mem_singleton.mp hk
    exact (refuses_evaluate hsame _ _).andThen.andThen
  | call script args => exact (refuses_callArguments hsame hk).andThen.andThen
  | callHandle script args => exact (refuses_callArguments hsame hk).andThen.andThen
  | waitFor script when bindings args =>
    refine Refuses.andThen (Refuses.after fun _ => ?_)
    have hrest (deadline : Option Nat) : Refuses P patience h (do
        let arguments ← args.mapM callArgument
        poll script arguments when.timeout (pollInterval when.polling) deadline
          (turns patience when.timeout (pollInterval when.polling)) : side.Action Handle) :=
      (refuses_callArguments hsame hk).andThen
    split
    · exact hrest none
    · exact Refuses.after hrest
  | _ => exact absurd hk List.not_mem_nil

end Refuses

/-- One use after another: those that look at a disposed handle fail. -/
theorem failed_inTurn {h : Handle} {uses : List Use} {record : List (Instant P)} {results : List (Except Error Unit)}
    (hgone : ∀ m ∈ record, m.world.isDisposed h = true)
    (hends : Ends (backend P patience) (inTurn patience uses) record results) :
    ∀ pair ∈ uses.zip results, (∃ k ∈ pair.1.seen, k.id = h.id) → ∃ e, pair.2 = .error e := by
  induction uses generalizing record results with
  | nil => exact fun pair hpair => absurd hpair List.not_mem_nil
  | cons use rest ih =>
    obtain ⟨first, second, r, rfl, hfirst, hsecond⟩ := Activity.ends_bind hends
    obtain ⟨third, fourth, rs, rfl, hthird, hfourth⟩ := Activity.ends_bind hsecond
    obtain ⟨rfl, rfl⟩ := Activity.ends_done hfourth
    intro pair hpair hseen
    rcases List.mem_cons.mp hpair with rfl | hlater
    · exact refuses_use hseen first r (fun m hm => hgone m (List.mem_append_left _ hm)) hfirst
    · refine ih (fun m hm => hgone m ?_) hthird pair hlater hseen
      exact List.mem_append_right _ (List.mem_append_left _ hm)

/-- The reference is that of another handle, one of those used later that are not looked at or one that was
looked at and was not disposed, that of the global object, or one that the page spoke of before. -/
inductive OfOthers (h : Handle) (later : List Use) (before : List (Instant P)) (id : String) : Prop
  | unseen (use : Use) (k : Handle) (huse : use ∈ later) (hk : k ∈ use.unseen) (hother : k.id ≠ h.id)
      (hid : k.remote.objectId = some id)
  | seen (m : Instant P) (k : Handle) (hm : m ∈ before) (hlook : m.query = .isDisposed k ∨ m.query = .dispose k)
      (hlive : m.world.isDisposed k = false) (hother : k.id ≠ h.id) (hid : k.remote.objectId = some id)
  | global (m : Instant P) (hm : m ∈ before) (hquery : m.query = .global) (hid : m.world.global = some id)
  | spoken (m : Instant P) (method : String) (doc reply : Json) (hm : m ∈ before)
      (hquery : m.query = .command method doc) (hreply : outcomeIn m.world method doc = .ok reply)
      (hid : id ∈ spokenOf reply)

/-- No look at a disposed handle lets its reference be named. -/
theorem ofOthers_of_lets {h : Handle} {later : List Use} {before : List (Instant P)} {w : World P} {q : Query}
    {id : String} (hm : (⟨w, q⟩ : Instant P) ∈ before) (hgone : w.isDisposed h = true)
    (hlets : id ∈ q.lets (w.answer q).1) : OfOthers h later before id := by
  have hother {k : Handle} (hlive : w.isDisposed k = false) : k.id ≠ h.id := by
    intro hsame
    rw [World.isDisposed, hsame] at hlive
    exact Bool.false_ne_true (hlive.symm.trans hgone)
  cases q with
  | isDisposed k =>
    have hin : id ∈ (if w.isDisposed k then (∅ : Set String) else refersTo k.remote) := hlets
    cases hlive : w.isDisposed k with
    | true => simp [hlive] at hin
    | false =>
      rw [hlive] at hin
      exact .seen _ k hm (Or.inl rfl) hlive (hother hlive) hin
  | dispose k =>
    have hin : id ∈ (if !w.isDisposed k then refersTo k.remote else (∅ : Set String)) := hlets
    cases hlive : w.isDisposed k with
    | true => simp [hlive] at hin
    | false =>
      rw [hlive] at hin
      exact .seen _ k hm (Or.inr rfl) hlive (hother hlive) hin
  | global => exact .global _ hm rfl hlets
  | command method doc =>
    have hin : id ∈ onSuccess spokenOf (outcomeIn w method doc) := hlets
    cases hreply : outcomeIn w method doc with
    | ok reply =>
      rw [hreply] at hin
      exact .spoken _ method doc reply hm rfl hreply hin
    | error e =>
      rw [hreply] at hin
      exact absurd hin (Set.notMem_empty id)
  | _ => exact absurd hlets (Set.notMem_empty id)

/-- What is done after a handle has been disposed has nothing to do with it. -/
structure Abandoned (P : Peer) (h : Handle) (later : List Use) (own : List (Instant P))
    (q : side.Task (List (Except Error Unit))) : Prop where
  /-- What a command names is not its reference, unless that is the one of something else too. -/
  named : ∀ (before rest : List (Instant P)) (m : Instant P), own = before ++ m :: rest →
    ∀ id ∈ m.query.names, OfOthers h later before id
  /-- Whoever looks at it fails. -/
  failed : ∀ results, q = .done results → ∀ pair ∈ later.zip results,
    (∃ k ∈ pair.1.seen, k.id = h.id) → ∃ e, pair.2 = .error e

/-- Whatever is done in turn after a handle has been disposed, and whatever others do meanwhile, no command
names its reference on its account, and every use that looks at it fails.  Only the uses that do not look
(`Use.unseen`) are kept to other handles. -/
theorem abandoned_of_disposed {u w v : World P} {h : Handle} {disposing own : List (Instant P)}
    {r : Except Error Unit} {later : List Use} {q : side.Task (List (Except Error Unit))}
    (hmade : h.id < u.ledger.size)
    (hdispose : Amid (backend P patience) u h.dispose.outcome disposing w (.done r))
    (hlater : Amid (backend P patience) w (inTurn patience later) own v q)
    (hseen : ∀ use ∈ later, ∀ k ∈ use.unseen, k.id ≠ h.id) : Abandoned P h later own q := by
  have hgone : ∀ m ∈ own, m.world.isDisposed h = true := by
    obtain ⟨-, haged, hlast⟩ := hdispose.ages ages_refl ages_trans ages_answer
    obtain ⟨-, hlaterAged, -⟩ := hlater.ages ages_refl ages_trans ages_answer
    have hends : Concludes P patience h.dispose disposing r := hdispose.walk
    obtain ⟨x, rest, rfl, -⟩ := Concludes.ask hends
    intro m hm
    refine isDisposed_of_ages (u := x) (Nat.lt_of_lt_of_le hmade (haged.first _ List.mem_cons_self).size) ?_
    exact ages_trans _ _ _ (hlast _ List.mem_cons_self) (hlaterAged.first m hm)
  refine ⟨fun before rest m hsplit id hid => ?_, fun results hresults => ?_⟩
  · have hheeds : Heeds referenceGrants (unseenIn later) (inTurn patience later) fun _ => unseenIn later :=
      heeds_inTurn Set.Subset.rfl
    rcases hheeds.granted hlater.walk hsplit id hid with ⟨use, huse, k, hk, hunseen⟩ | ⟨⟨w', q'⟩, hm', hlets⟩
    · exact .unseen use k huse hk (hseen use huse k hk) hunseen
    · have hin : (⟨w', q'⟩ : Instant P) ∈ own := hsplit ▸ List.mem_append_left _ hm'
      exact ofOthers_of_lets hm' (hgone _ hin) hlets
  · subst hresults
    exact failed_inTurn hgone hlater.walk

/-! ### A handle of a page that calls the program -/

/-- A handle of a page that calls the program. -/
def heldHandle : Handle := ⟨0, { Protocol.RemoteObject.empty with objectId := some "held" }⟩

/-- A world of such a page, with the handle. -/
def heldWorld : World caller := { callerWorld with ledger := #[false] }

/-- The world when the handle has been disposed. -/
def spentWorld : World caller := (atOnce 0 heldWorld heldHandle.dispose.outcome).2.1

theorem amid_held :
    ∃ disposing r, Amid (backend caller 0) heldWorld heldHandle.dispose.outcome disposing spentWorld (.done r) := by
  obtain ⟨r, hr⟩ := Option.isSome_iff_exists.mp
    (show (result? (atOnce 0 heldWorld heldHandle.dispose.outcome).2.2).isSome = true by decide +kernel)
  exact ⟨_, r, eq_of_result? hr ▸ amid_atOnce 0 heldWorld heldHandle.dispose.outcome⟩

/-- The handle is the receiver of one call then, and the argument of another. -/
def heldUses : List Use := [.evaluate heldHandle "f" [], .call "f" [.handle heldHandle]]

/-- Both calls fail, and the page hears of neither. -/
theorem abandoned_of_held :
    Abandoned caller heldHandle heldUses (atOnce 0 spentWorld (inTurn 0 heldUses)).1
        (atOnce 0 spentWorld (inTurn 0 heldUses)).2.2 ∧
      (atOnce 0 spentWorld (inTurn 0 heldUses)).1.any (sends "Runtime.callFunctionOn") = false := by
  obtain ⟨disposing, r, hdispose⟩ := amid_held
  refine ⟨abandoned_of_disposed (by decide) hdispose (amid_atOnce 0 spentWorld (inTurn 0 heldUses)) ?_,
    by decide +kernel⟩
  intro use huse k hk
  simp only [heldUses, List.mem_cons, List.not_mem_nil, or_false] at huse
  rcases huse with rfl | rfl <;> exact absurd hk List.not_mem_nil

/-- The command asks the page of that object. -/
def asksOf (method id : String) (m : Instant P) : Bool :=
  match m.query with
  | .command sent doc => sent == method && (doc.member "objectId").string? == some id
  | _ => false

/-- To ask a disposed handle for its items succeeds, and tells the page its reference. -/
theorem named_by_items :
    (∃ disposing r, Amid (backend caller 0) heldWorld heldHandle.dispose.outcome disposing spentWorld (.done r)) ∧
      ∃ own last, Amid (backend caller 0) spentWorld (inTurn 0 [.arrayItems heldHandle]) own last (.done [.ok ()]) ∧
        ∃ m ∈ own, "held" ∈ m.query.names := by
  have hresult : (atOnce 0 spentWorld (inTurn 0 [.arrayItems heldHandle])).2.2 = .done [.ok ()] :=
    eq_of_result? (by decide +kernel)
  refine ⟨amid_held, _, _, hresult ▸ amid_atOnce 0 spentWorld (inTurn 0 [.arrayItems heldHandle]), ?_⟩
  obtain ⟨⟨w, q⟩, hmem, hasks⟩ := List.any_eq_true.mp
    (show (atOnce 0 spentWorld (inTurn 0 [.arrayItems heldHandle])).1.any (asksOf "Runtime.getProperties" "held")
      = true by decide +kernel)
  refine ⟨_, hmem, ?_⟩
  cases q with
  | command sent doc => exact Or.inl (beq_iff_eq.mp (Bool.and_eq_true_iff.mp hasks).2)
  | _ => cases hasks

end Wayfind.Remote
