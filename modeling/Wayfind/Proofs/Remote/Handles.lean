/-
What handles of a page behind a connection do to the account.

The items of an array are handles of their own, and belong to whoever asked for them.  A
query keeps the handles of elements among what it is given, and releases the others.
-/
import Wayfind.Proofs.Remote.Commands

namespace Wayfind.Remote

open Activity (Prompt prompt_bind)
open PageSide (Action)
open Protocol (RemoteObject Property)
open Wayfind.Query (Matches)

variable {P : Peer} {patience : Nat} {waits : Prop} {W : Recorded P → Prop} {α β : Type}
  {x : Recorded P} {m rest : Multiset Charge}

/-! ### Items of arrays -/

theorem idle_reference (h : Handle) (missing : String) :
    Idle P patience waits (h.reference missing) := by
  unfold Handle.reference
  split
  · exact .pure rfl
  · exact .throw rfl

/-- Handles are made of all values. -/
theorem yields_wrapAll (values : List (Nat × RemoteObject)) :
    Yields P patience waits ((values.map fun item => loose item.2).sum)
      (values.mapM fun (_, remote) => wrap remote) charges := by
  induction values with
  | nil => exact .pure rfl
  | cons item rest ih =>
    rw [List.mapM_cons, List.map_cons, List.sum_cons]
    refine (yields_wrap item.2).bind fun h => ?_
    rw [add_comm]
    refine ih.bind fun hs => .pure ?_
    rw [charges_cons, add_comm]

/-- The references in a reply that lists properties, item by item. -/
theorem referencesIn_properties {params reply : Json} {properties : List Property}
    (hread : Property.listReader.ofJson? reply = some properties) :
    (referencesIn "Runtime.getProperties" params reply).map Charge.loose =
      (((Handle.indexed properties).mergeSort fun a b => a.1 ≤ b.1).map fun item => loose item.2).sum := by
  unfold referencesIn
  rw [if_pos rfl, hread, Option.map_some, Option.getD_some,
    ((List.mergeSort_perm (Handle.indexed properties) _).map _).sum_eq]
  rw [← Multiset.coe_mapAddMonoidHom, map_list_sum, List.map_map]
  exact congrArg List.sum (List.map_congr_left fun item _ => map_loose_reference item.2)

section Quiet

variable (hP : P.Quiet waits)
include hP

theorem conserves_arrayItems (h : Handle) : Conserves P patience waits 0 h.arrayItems chargesOf := by
  refine (idle_reference h _).bindThen (fun id => ?_) fun _ => rfl
  refine (conserves_send (conserves_command hP (by decide))).bind (fun reply => ?_) fun _ => rfl
  show Conserves P patience waits ((referencesIn "Runtime.getProperties" _ reply).map Charge.loose) _ _
  unfold read
  rcases hread : Property.listReader.ofJson? reply with _ | properties
  · refine .throw ?_
    unfold referencesIn
    rw [if_pos rfl, hread]
    rfl
  · rw [referencesIn_properties hread]
    exact (yields_wrapAll _).conserves fun _ => rfl

/-! ### Releasing -/

theorem yields_releaseIn (h : Handle) :
    Yields P patience waits h.charge ((realm patience).releaseIn h) fun _ => 0 := by
  intro x rest hx
  refine prompt_bind.mpr (prompt_bind.mpr ((conserves_dispose hP h x rest hx).mono fun r y hy => ?_))
  exact ⟨(), rfl, hy⟩

end Quiet

/-- The charges of at most one handle. -/
def chargesOption (o : Option Handle) : Multiset Charge := charges o.toList

/-- The charges of the handle in an outcome, if there is one. -/
def chargesOptionOf : Except Error (Option Handle) → Multiset Charge
  | .ok o => chargesOption o
  | .error _ => 0

section Quiet

variable (hP : P.Quiet waits)
include hP

theorem yields_keepElement (h : Handle) :
    Yields P patience waits h.charge ((realm patience).keepElement h) chargesOption := by
  unfold Realm.keepElement
  split
  · exact .pure (add_zero h.charge)
  · have hrelease : Yields P patience waits (h.charge + 0)
        ((realm patience).releaseIn h >>= fun _ => Pure.pure none) chargesOption :=
      (yields_releaseIn hP h).bind fun _ => .pure rfl
    rwa [add_zero] at hrelease

theorem yields_keepElements (hs : List Handle) :
    Yields P patience waits (charges hs) ((realm patience).keepElements hs) charges := by
  induction hs with
  | nil => exact .pure rfl
  | cons h rest ih =>
    rw [charges_cons]
    refine (yields_keepElement hP h).bind fun kept => ?_
    rw [add_comm]
    exact ih.bind fun more => .pure ((charges_append kept.toList more).trans (add_comm _ _))

/-! ### Iterators -/

/-- The elements of a batch are all that is left of it. -/
theorem conserves_fetchBatch (iterator : Handle) :
    Conserves P patience waits 0 (Matches.fetchBatch (realm patience) iterator)
      fun r => chargesOf (r.map Prod.fst) := by
  refine (conserves_evaluateHandle hP iterator _ _).bind (fun array => ?_) fun _ => rfl
  have hitems : Conserves P patience waits (0 + array.charge) _ _ :=
    (conserves_arrayItems hP array).frame array.charge
  rw [zero_add] at hitems
  refine hitems.attempt fun items => ?_
  rw [add_comm]
  refine (yields_releaseIn hP array).bindConserves fun _ => ?_
  rw [zero_add]
  cases items with
  | error e => exact .throw rfl
  | ok items =>
    have hkept : Conserves P patience waits (charges items + 0)
        ((realm patience).keepElements items >>= fun kept =>
          Pure.pure (kept, decide (items.length < Wayfind.Query.batchSize)))
        fun r => chargesOf (r.map Prod.fst) :=
      (yields_keepElements hP items).bindConserves fun kept => .pure (add_zero _).symm
    rwa [add_zero] at hkept

end Quiet

end Wayfind.Remote
