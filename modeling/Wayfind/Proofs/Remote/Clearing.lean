/-
Which handles are left when something has been done.

A handle that is made has to be disposed, unless the world takes it for its own.  Whatever the worlds are
that an action finds, and whichever of its commands fail, the handles it makes are disposed when it ends,
or they are what it ends with: one lemma for each action says which are left.  A handle that an action has
disposed is disposed from then on, whoever else is at work (`isDisposed_of_made`).
-/
import Wayfind.Proofs.Activity.Amid
import Wayfind.Proofs.Activity.Dues
import Wayfind.Proofs.Remote.Promises

namespace Wayfind.Remote

open Activity (Aged Amid Clears Dues Ends Neat clears_ask clears_ask_ignored clears_assoc clears_lift
  clears_ofExcept clears_pure clears_sleepThen clears_throw neat_mapM neat_pure neat_throw)
open PageSide (Action)
open Protocol (RemoteObject)

variable {P : Peer} {patience : Nat} {trusted : Bool} {α β : Type} {owed : Set Handle}

/-! ### Handles as dues -/

/-- The handle that an answer gives. -/
def Query.makes : (q : Query) → q.Answer → Set Handle
  | .wrap _, h => {(h : Handle)}
  | _, _ => ∅

/-- The handle that is disposed; one that the world takes for its own counts as well where the world is
trusted with it. -/
def Query.disposes (trusted : Bool) : Query → Set Handle
  | .dispose h => {h}
  | .rememberUtility h => if trusted then {h} else ∅
  | _ => ∅

/-- Handles that are made have to be disposed, or be left to a world that is trusted with them. -/
def handleDues (trusted : Bool) : Dues side.signature Handle where
  brings := Query.makes
  settles := Query.disposes trusted

/-- Whoever begins the action with such handles ends it with these. -/
abbrev LeavesOver (trusted : Bool) (owed : Set Handle) (a : side.Action α)
    (left : Except Error α → Set Handle) : Prop :=
  Clears (handleDues trusted) owed a.outcome left

/-- The action leaves no handle. -/
abbrev Tidy (trusted : Bool) (a : side.Action α) : Prop := Neat (handleDues trusted) a

/-- What a success leaves; a failure leaves nothing. -/
def onSuccess {X : Type} (left : α → Set X) : Except Error α → Set X
  | .ok a => left a
  | .error _ => ∅

/-- The handles in a list. -/
def among (hs : List Handle) : Set Handle := {h | h ∈ hs}

/-- The handle there is. -/
def within (o : Option Handle) : Set Handle := among o.toList

theorem among_cons (h : Handle) (hs : List Handle) : among (h :: hs) = {h} ∪ among hs := by
  ext x
  simp [among]

theorem among_append (hs more : List Handle) : among (hs ++ more) = among hs ∪ among more := by
  ext x
  simp [among]

@[simp] theorem among_nil : among [] = ∅ := by
  ext x
  simp [among]

theorem among_singleton (h : Handle) : among [h] = {h} := by
  rw [among_cons, among_nil, Set.union_empty]

theorem among_cons' (h : Handle) (hs : List Handle) : among (h :: hs) = among hs ∪ {h} := by
  rw [among_cons, Set.union_comm]

/-! ### Commands -/

/-- The question neither makes nor disposes a handle, nor does it call a page function or release a
reference. -/
def Query.IsIdle : Query → Prop
  | .wrap _ | .dispose _ | .rememberUtility _ => False
  | .command method _ => method ≠ "Runtime.callFunctionOn" ∧ method ≠ "Runtime.releaseObject"
  | _ => True

/-- Dues of what the page has: nothing is due of an idle question. -/
class OfObjects {X : Type} (D : Dues side.signature X) : Prop where
  ignores : ∀ q : Query, q.IsIdle → D.Ignores q

instance : OfObjects (handleDues trusted) where
  ignores q hq := by
    cases q with
    | wrap remote => exact hq.elim
    | dispose h => exact hq.elim
    | rememberUtility h => exact hq.elim
    | _ => exact ⟨rfl, fun _ => rfl⟩

section OfObjects

variable {X : Type} {D : Dues side.signature X}

theorem clears_command {method : String} {doc : Json} {owed : Set X} {left : Except Error Json → Set X}
    (h : ∀ d : Delivery, D.later owed (Query.command method doc) d ⊆ left d.outcome) :
    Clears D owed (command method doc).outcome left := by
  refine clears_ask fun (d : Delivery) => ?_
  have hend : Clears D (D.later owed (Query.command method doc) d)
      (Action.ofExcept d.outcome : side.Action Json).outcome left := clears_ofExcept (h d)
  dsimp only
  split
  · exact clears_sleepThen hend
  · exact hend

theorem neat_command {method : String} {doc : Json} (h : D.Ignores (Query.command method doc)) :
    Neat D (command method doc) := clears_command fun d => (h.later d).subset

theorem neat_read (reader : Json.Reader α) (reply : Json) : Neat D (read reader reply) := by
  unfold read
  split
  · exact neat_pure _
  · exact neat_throw _

variable [OfObjects D]

theorem ignores_idle {method : String}
    (h : method ≠ "Runtime.callFunctionOn" ∧ method ≠ "Runtime.releaseObject") (doc : Json) :
    D.Ignores (Query.command method doc) := OfObjects.ignores (.command method doc) h

theorem clears_send {method : String} {doc : Json} {owed : Set X} {left : Except Error Json → Set X}
    (h : ∀ d : Delivery, D.later owed (Query.command method doc) d ⊆ left d.outcome) :
    Clears D owed (send method doc).outcome left := by
  refine Clears.attempt (clears_command h) fun r => ?_
  cases r with
  | ok reply => exact clears_pure Set.Subset.rfl
  | error e =>
    dsimp only
    split
    · exact clears_ask_ignored (OfObjects.ignores .forget trivial) fun _ => clears_throw Set.Subset.rfl
    · exact clears_throw Set.Subset.rfl

theorem neat_send {method : String} {doc : Json} (h : D.Ignores (Query.command method doc)) :
    Neat D (send method doc) := clears_send fun d => (h.later d).subset

theorem neat_globalId : Neat D globalId := by
  refine clears_ask_ignored (OfObjects.ignores .global trivial) fun (known : Option String) => ?_
  cases known with
  | some id => exact neat_pure id
  | none =>
    refine (neat_command (ignores_idle (by decide) _)).bind fun reply => ?_
    refine (neat_read _ reply).bind fun evaluation => ?_
    cases evaluation.result.objectId with
    | none => exact neat_throw _
    | some id =>
      exact clears_ask_ignored (OfObjects.ignores (.rememberGlobal id) trivial) fun _ => neat_pure id

theorem neat_callFunction {script : String} {arguments : List Json} {byValue : Bool}
    (h : ∀ id, D.Ignores (Query.command "Runtime.callFunctionOn" (callParams script arguments byValue id))) :
    Neat D (callFunction script arguments byValue) := by
  refine neat_globalId.bind fun id => (neat_send (h id)).bind fun reply => ?_
  refine (neat_read _ reply).bind fun evaluation => ?_
  cases evaluation.exception with
  | some e => exact neat_throw _
  | none => exact neat_pure _

theorem neat_handleArgument (h : Handle) : Neat D (handleArgument h) := by
  refine clears_ask_ignored (OfObjects.ignores (.isDisposed h) trivial) fun (disposed : Bool) => ?_
  cases disposed with
  | true => exact neat_throw _
  | false =>
    dsimp only
    cases h.remote.objectId <;> exact neat_pure _

theorem neat_callArgument (a : Argument Handle) : Neat D (callArgument a) := by
  cases a with
  | handle h => exact neat_handleArgument h
  | _ => exact neat_pure _

end OfObjects

/-- No handle is due of a command. -/
theorem ignores_command (method : String) (doc : Json) : (handleDues trusted).Ignores (Query.command method doc) :=
  ⟨rfl, fun _ => rfl⟩

theorem tidy_send (method : String) (doc : Json) : Tidy trusted (send method doc) :=
  neat_send (ignores_command method doc)

theorem tidy_callFunction (script : String) (arguments : List Json) (byValue : Bool) :
    Tidy trusted (callFunction script arguments byValue) := neat_callFunction fun _ => ignores_command _ _

/-! ### Handles -/

/-- To make a handle never fails. -/
theorem leaves_wrapThen (remote : RemoteObject) {f : Handle → side.Action β}
    {left : Except Error β → Set Handle} (hf : ∀ h, LeavesOver trusted ({h} ∪ owed) (f h) left) :
    LeavesOver trusted owed (wrap remote >>= f) left := by
  unfold wrap
  refine clears_ask fun (h : Handle) => ?_
  have hmade : (handleDues trusted).later owed (Query.wrap remote) h = {h} ∪ owed := by
    show owed \ ∅ ∪ {h} = {h} ∪ owed
    rw [Set.sdiff_empty, Set.union_comm]
  rw [hmade]
  exact hf h

/-- A handle that is made is all that is left. -/
theorem leaves_wrap (remote : RemoteObject) : LeavesOver trusted ∅ (wrap remote) (onSuccess fun h => {h}) := by
  have hthen : LeavesOver trusted ∅ (wrap remote >>= pure) (onSuccess fun h => {h}) :=
    leaves_wrapThen remote fun h => clears_pure (Set.union_empty {h}).subset
  rwa [bind_pure] at hthen

theorem leaves_callHandle (script : String) (args : List (Argument Handle)) :
    LeavesOver trusted ∅ (callHandle script args) (onSuccess fun h => {h}) :=
  (neat_mapM neat_callArgument args).bind fun arguments =>
    (tidy_callFunction _ arguments _).bind leaves_wrap

/-- The utility bundle is the world's own. -/
theorem tidy_utility : Tidy true utility := by
  refine clears_ask_ignored ⟨rfl, fun _ => rfl⟩ fun (known : Option Handle) => ?_
  cases known with
  | some h => exact neat_pure h
  | none =>
    refine clears_ask_ignored ⟨rfl, fun _ => rfl⟩ fun source => ?_
    refine (neat_command (ignores_command _ _)).bind fun reply => (neat_read _ reply).bind fun evaluation => ?_
    cases evaluation.exception with
    | some e => exact neat_throw _
    | none =>
      refine Clears.andThen (leaves_wrap evaluation.result) (fun h => ?_) fun _ => Set.Subset.rfl
      refine clears_ask fun _ => clears_pure ?_
      show ({h} : Set Handle) \ {h} ∪ ∅ ⊆ ∅
      rw [Set.sdiff_self, Set.union_empty]

theorem tidy_invoke (h : Handle) (script : String) (args : List (Argument Handle)) (byValue : Bool) :
    Tidy trusted (h.invoke script args byValue) :=
  (neat_handleArgument h).bind fun _ => (neat_mapM neat_callArgument args).bind fun _ =>
    tidy_callFunction _ _ _

theorem tidy_evaluate (h : Handle) (script : String) (args : List (Argument Handle)) :
    Tidy trusted (h.evaluate script args) := (tidy_invoke h script args true).bind fun _ => neat_pure _

theorem leaves_evaluateHandle (h : Handle) (script : String) (args : List (Argument Handle)) :
    LeavesOver trusted ∅ (h.evaluateHandle script args) (onSuccess fun h => {h}) :=
  (tidy_invoke h script args false).bind leaves_wrap

theorem tidy_jsonValue (h : Handle) : Tidy trusted h.jsonValue := by
  unfold Handle.jsonValue
  cases h.remote.objectId with
  | none => exact neat_pure _
  | some id => exact tidy_evaluate h _ _

theorem leaves_dispose (h : Handle) : LeavesOver trusted {h} h.dispose fun _ => ∅ := by
  refine clears_ask fun (first : Bool) => ?_
  have hgone : (handleDues trusted).later {h} (.dispose h) first = ∅ := by
    show ({h} : Set Handle) \ {h} ∪ ∅ = ∅
    rw [Set.sdiff_self, Set.union_empty]
  rw [hgone]
  split
  · split
    · exact (tidy_send _ _).bind fun _ => neat_pure _
    · exact neat_pure _
  · exact neat_pure _

theorem clears_release (h : Handle) : Clears (handleDues trusted) {h} ((realm patience).release h) fun _ => ∅ :=
  Clears.bind (leaves_dispose h) fun _ => Set.Subset.rfl

/-- To release a handle is to do nothing else about handles, and never fails. -/
theorem leaves_releaseThen (h : Handle) {f : Unit → side.Action β} {left : Except Error β → Set Handle}
    (hf : LeavesOver trusted owed (f ()) left) :
    LeavesOver trusted ({h} ∪ owed) ((realm patience).releaseIn h >>= f) left := by
  refine clears_lift ((clears_release h).frame owed) fun _ => ?_
  rwa [Set.empty_union]

theorem leaves_releaseIn (h : Handle) : LeavesOver trusted {h} ((realm patience).releaseIn h) fun _ => ∅ := by
  have hthen : LeavesOver trusted ({h} ∪ ∅) ((realm patience).releaseIn h >>= fun _ => pure ()) fun _ => ∅ :=
    leaves_releaseThen h (neat_pure ())
  rwa [Set.union_empty, bind_pure] at hthen

theorem leaves_releases (hs : List Handle) :
    LeavesOver trusted (among hs) (hs.forM (realm patience).releaseIn) fun _ => ∅ := by
  induction hs with
  | nil =>
    rw [among_nil]
    exact neat_pure ()
  | cons h rest ih =>
    rw [among_cons]
    exact leaves_releaseThen h ih

/-! ### Items of arrays -/

/-- Handles are made of all values. -/
theorem leaves_wrapAll (values : List (Nat × RemoteObject)) {f : List Handle → side.Action β}
    {left : Except Error β → Set Handle} (hf : ∀ hs, LeavesOver trusted (among hs ∪ owed) (f hs) left) :
    LeavesOver trusted owed ((values.mapM fun (_, remote) => wrap remote) >>= f) left := by
  induction values generalizing owed f with
  | nil =>
    have hnone := hf []
    rwa [among_nil, Set.empty_union] at hnone
  | cons value rest ih =>
    simp only [List.mapM_cons, bind_assoc, pure_bind]
    refine leaves_wrapThen value.2 fun h => ih fun hs => ?_
    have hall := hf (h :: hs)
    rwa [among_cons, Set.union_comm {h}, Set.union_assoc] at hall

theorem leaves_arrayItems (h : Handle) : LeavesOver trusted ∅ h.arrayItems (onSuccess among) := by
  have hreference : Tidy trusted (h.reference "Cannot list properties of a primitive") := by
    unfold Handle.reference
    split
    · exact neat_pure _
    · exact neat_throw _
  refine hreference.bind fun _ => (tidy_send _ _).bind fun reply => ?_
  refine (neat_read _ reply).bind fun properties => ?_
  have hthen : LeavesOver trusted ∅
      ((((Handle.indexed properties).mergeSort fun a b => a.1 ≤ b.1).mapM fun (_, remote) => wrap remote) >>= pure)
      (onSuccess among) :=
    leaves_wrapAll _ fun hs => clears_pure (Set.union_empty (among hs)).subset
  rwa [bind_pure] at hthen

/-! ### What is asked at once -/

/-- What an activity asks at once of a world, the world after it, and what is left of the activity. -/
def atOnce (patience : Nat) (w : World P) (p : side.Task α) : List (Instant P) × World P × side.Task α :=
  let start : Activity.Timeline side.signature (backend P patience).World := .init w
  let after := Activity.Timeline.advance (backend P patience) p start
  (start.questions (backend P patience) p, after.2.world, after.1)

theorem amid_atOnce (patience : Nat) (w : World P) (p : side.Task α) :
    Amid (backend P patience) w p (atOnce patience w p).1 (atOnce patience w p).2.1
      (atOnce patience w p).2.2 := by
  have hbegins : Amid (backend P patience) w p [] (Activity.Timeline.init (S := side.signature) w).world p :=
    .begins
  exact hbegins.advance

/-- What an activity has ended with. -/
def result? : side.Task α → Option α
  | .done a => some a
  | _ => none

theorem eq_of_result? {p : side.Task α} {a : α} (h : result? p = some a) : p = .done a := by
  unfold result? at h
  split at h
  · rw [Option.some.inj h]
  · cases h

/-- How an action has failed. -/
def failure? : side.Task (Except Error α) → Option Error
  | .done (.error e) => some e
  | _ => none

theorem eq_of_failure? {p : side.Task (Except Error α)} {e : Error} (h : failure? p = some e) :
    p = .done (.error e) := by
  unfold failure? at h
  split at h
  · rw [Option.some.inj h]
  · cases h

/-! ### What is disposed in the end -/

/-- The handles that are left when so much has been asked. -/
def leftBy (trusted : Bool) (owed : Set Handle) (record : List (Instant P)) : Set Handle :=
  record.foldl (fun owed m => owed \ m.query.disposes trusted ∪ m.query.makes (m.world.answer m.query).1) owed

theorem leftBy_append (first second : List (Instant P)) :
    leftBy trusted owed (first ++ second) = leftBy trusted (leftBy trusted owed first) second := List.foldl_append

/-- An action leaves no more than it says. -/
theorem leftBy_subset (trusted : Bool) {p : side.Task α} {left : α → Set Handle} {less : Set Handle}
    (h : Clears (handleDues trusted) owed p left) (hless : less ⊆ owed) {record : List (Instant P)} {a : α}
    (hends : Ends (backend P patience) p record a) : leftBy trusted less record ⊆ left a :=
  (h.of_subset hless).owing_subset hends

/-- Once a handle is released nothing else is left than was. -/
theorem concludes_releaseThen (trusted : Bool) {h : Handle} {f : Unit → side.Action β} {record : List (Instant P)}
    {r : Except Error β} (hr : Concludes P patience ((realm patience).releaseIn h >>= f) record r) :
    ∃ releasing rest : List (Instant P), record = releasing ++ rest ∧ Concludes P patience (f ()) rest r ∧
      ∀ less rest : Set Handle, less ⊆ {h} ∪ rest → leftBy trusted less releasing ⊆ rest := by
  obtain ⟨releasing, rest, u, rfl, hreleasing, hrest⟩ := Activity.ends_lift hr
  refine ⟨releasing, rest, rfl, hrest, fun less rest hless => ?_⟩
  have hreleased := leftBy_subset trusted ((clears_release h).frame rest) hless hreleasing
  rwa [Set.empty_union] at hreleased

/-- The world has taken the handle for its own. -/
def Retained (record : List (Instant P)) (h : Handle) : Prop :=
  ∃ w : World P, (⟨w, .rememberUtility h⟩ : Instant P) ∈ record

/-- A handle that was made and is not left has been disposed, and is so whatever the world has become,
unless the world was trusted with it and has taken it for its own. -/
theorem isDisposed_of_made (trusted : Bool) {start last : World P} {own : List (Instant P)}
    (haged : Aged (B := backend P patience) Ages start own)
    (hlast : ∀ m ∈ own, Ages (Activity.Moment.after (B := backend P patience) m) last) {h : Handle}
    (hmade : Made own h) :
    last.isDisposed h = true ∨ (trusted = true ∧ Retained own h) ∨ h ∈ leftBy trusted ∅ own := by
  obtain ⟨w, remote, hmem, rfl⟩ := hmade
  obtain ⟨before, rest, hsplit⟩ := List.append_of_mem hmem
  have hbrings : (w.wrap remote).1 ∈ (handleDues trusted).brings (.wrap remote)
      ((backend P patience).answer (.wrap remote) w).1 := rfl
  have hsettled : (∃ m ∈ rest, (w.wrap remote).1 ∈ (handleDues trusted).settles m.query) ∨
      (w.wrap remote).1 ∈ leftBy trusted ∅ own :=
    Dues.settled_or_owing (B := backend P patience) (D := handleDues trusted) (m := ⟨w, .wrap remote⟩) hsplit hbrings
  rcases hsettled with ⟨m, hm, hsettles⟩ | hleft
  · have hown : m ∈ own := by
      rw [hsplit]
      exact List.mem_append_right _ (List.mem_cons_of_mem _ hm)
    obtain ⟨v, q⟩ := m
    cases q with
    | dispose h =>
      obtain rfl : (w.wrap remote).1 = h := hsettles
      refine Or.inl (isDisposed_of_ages ?_ (hlast _ hown))
      have horder := haged.order
      rw [hsplit] at horder
      have hgrown : Ages (w.wrap remote).2 v :=
        List.rel_of_pairwise_cons (List.pairwise_append.mp horder).2.1 hm
      refine Nat.lt_of_lt_of_le ?_ hgrown.size
      show w.ledger.size < (w.ledger.push false).size
      rw [Array.size_push]
      exact Nat.lt_succ_self _
    | rememberUtility h =>
      cases trusted with
      | true =>
        obtain rfl : (w.wrap remote).1 = h := hsettles
        exact Or.inr (Or.inl ⟨rfl, v, hown⟩)
      | false => exact absurd hsettles (Set.notMem_empty _)
    | _ => exact absurd hsettles (Set.notMem_empty _)
  · exact Or.inr (Or.inr hleft)

end Wayfind.Remote
