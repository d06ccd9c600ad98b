/-
What the program owes the page behind a connection.

Replies hand over references to objects in the page, and each of them has to be released
once: by the handle that was made of it, or at once when no handle is made.  The record of
what the world was asked shows which references were handed over and which were released;
the ledger shows which handles are disposed.  `Owes` says that a bag of charges is what is
left of all this, and how each question changes the bag.
-/
import Mathlib.Algebra.Order.Group.Multiset
import Mathlib.Data.Multiset.Bind
import Mathlib.Tactic.Abel
import Wayfind.Proofs.Activity.Recording
import Wayfind.Proofs.Page.Ledger
import Wayfind.Remote.Dispatch

namespace Wayfind.Remote

open Activity (Moment)
open Protocol (RemoteObject Property Evaluation)

variable {P : Peer}

/-! ### What a reply hands over -/

/-- The reference in the description of a value, if it is one. -/
def reference (r : RemoteObject) : Multiset String := ofOption r.objectId

/-- The references in the reply to a command: the result of a call that was not asked for the value,
the items of an object, a document node. -/
def referencesIn (method : String) (params reply : Json) : Multiset String :=
  if method = "Runtime.getProperties" then
    ((((Property.listReader.ofJson? reply).map Handle.indexed).getD []).map
      fun item => reference item.2).sum
  else if method = "DOM.resolveNode" then
    ((RemoteObject.reader.ofJson? (reply.member "object")).map reference).getD 0
  else if (params.member "returnByValue").bool? = some false then
    match Evaluation.reader.ofJson? reply with
    | some ⟨result, none⟩ => reference result
    | _ => 0
  else 0

/-- A question to the world at the instant when it was asked. -/
abbrev Instant (P : Peer) : Type := Moment Query (World P)

namespace Instant

/-- The references that the page handed over in answer. -/
def given : Instant P → Multiset String
  | ⟨w, .command method params⟩ =>
    match (P.command method params w.peer).1.outcome with
    | .ok reply => referencesIn method params reply
    | .error _ => 0
  | _ => 0

/-- The reference that the page was told to release. -/
def released : Instant P → Multiset String
  | ⟨_, .command method params⟩ =>
    if method = "Runtime.releaseObject" then ofOption (params.member "objectId").string? else 0
  | _ => 0

/-- The handle that was made. -/
def made : Instant P → Multiset Handle
  | ⟨w, .wrap remote⟩ => {(w.wrap remote).1}
  | _ => 0

/-- The handle that was disposed, if it was not before. -/
def disposed : Instant P → Multiset Handle
  | ⟨w, .dispose h⟩ => if w.isDisposed h then 0 else {h}
  | _ => 0

/-- The handle that the world took for its utility bundle. -/
def kept : Instant P → Multiset Handle
  | ⟨_, .rememberUtility h⟩ => {h}
  | _ => 0

variable {w : World P} {method : String} {params : Json}

theorem given_ok {reply : Json} (h : (P.command method params w.peer).1.outcome = .ok reply) :
    given ⟨w, .command method params⟩ = referencesIn method params reply := by
  simp [given, h]

theorem given_error {e : Error} (h : (P.command method params w.peer).1.outcome = .error e) :
    given ⟨w, .command method params⟩ = 0 := by
  simp [given, h]

end Instant

/-- The sum over a record. -/
def total {γ : Type} (f : Instant P → Multiset γ) (record : List (Instant P)) : Multiset γ :=
  (record.map f).sum

@[simp] theorem total_nil {γ : Type} (f : Instant P → Multiset γ) : total f [] = 0 := rfl

@[simp] theorem total_append {γ : Type} (f : Instant P → Multiset γ) (first second : List (Instant P)) :
    total f (first ++ second) = total f first + total f second := by
  simp [total]

@[simp] theorem total_singleton {γ : Type} (f : Instant P → Multiset γ) (i : Instant P) :
    total f [i] = f i := by
  simp [total]

/-! ### Charges -/

/-- Something that has to be released. -/
inductive Charge where
  | handle (h : Handle)
  /-- A handle from before, by its place in the ledger. -/
  | standing (id : Nat)
  /-- A reference of which no handle was made. -/
  | loose (ref : String)
  /-- The reference of a handle that is disposed already. -/
  | freed (ref : String)

namespace Charge

/-- The place in the ledger. -/
def mark : Charge → Multiset Nat
  | handle h => {h.id}
  | standing id => {id}
  | _ => 0

/-- The reference that has to be released. -/
def ref : Charge → Multiset String
  | handle h => reference h.remote
  | standing _ => 0
  | loose ref | freed ref => {ref}

/-- The reference of which a handle can still be made. -/
def free : Charge → Multiset String
  | loose ref => {ref}
  | _ => 0

/-- The handle that has to be disposed. -/
def own : Charge → Multiset Handle
  | handle h => {h}
  | _ => 0

end Charge

/-- The places in the ledger of charges. -/
def marks (m : Multiset Charge) : Multiset Nat := m.bind Charge.mark

/-- The references of charges. -/
def refs (m : Multiset Charge) : Multiset String := m.bind Charge.ref

/-- The references of charges of which no handle was made. -/
def frees (m : Multiset Charge) : Multiset String := m.bind Charge.free

/-- The handles of charges. -/
def owned (m : Multiset Charge) : Multiset Handle := m.bind Charge.own

@[simp] theorem marks_add (m n : Multiset Charge) : marks (m + n) = marks m + marks n :=
  Multiset.add_bind _ _ _

@[simp] theorem refs_add (m n : Multiset Charge) : refs (m + n) = refs m + refs n :=
  Multiset.add_bind _ _ _

@[simp] theorem frees_add (m n : Multiset Charge) : frees (m + n) = frees m + frees n :=
  Multiset.add_bind _ _ _

@[simp] theorem owned_add (m n : Multiset Charge) : owned (m + n) = owned m + owned n :=
  Multiset.add_bind _ _ _

/-- The charge of a handle. -/
def Handle.charge (h : Handle) : Multiset Charge := {.handle h}

/-- The charge of a value that was handed over. -/
def loose (r : RemoteObject) : Multiset Charge := ofOption (r.objectId.map Charge.loose)

/-- The charge of a handle that is disposed. -/
def Handle.freed (h : Handle) : Multiset Charge := ofOption (h.remote.objectId.map Charge.freed)

section Charges

variable (h : Handle) (r : RemoteObject)

@[simp] theorem marks_charge : marks h.charge = {h.id} := by simp [marks, Handle.charge, Charge.mark]

@[simp] theorem refs_charge : refs h.charge = reference h.remote := by
  simp [refs, Handle.charge, Charge.ref]

@[simp] theorem frees_charge : frees h.charge = 0 := by simp [frees, Handle.charge, Charge.free]

@[simp] theorem owned_charge : owned h.charge = {h} := by simp [owned, Handle.charge, Charge.own]

@[simp] theorem marks_loose : marks (loose r) = 0 := by
  unfold loose
  cases r.objectId <;> simp [marks, Charge.mark]

@[simp] theorem refs_loose : refs (loose r) = reference r := by
  unfold loose reference
  cases r.objectId <;> simp [refs, Charge.ref]

@[simp] theorem frees_loose : frees (loose r) = reference r := by
  unfold loose reference
  cases r.objectId <;> simp [frees, Charge.free]

@[simp] theorem owned_loose : owned (loose r) = 0 := by
  unfold loose
  cases r.objectId <;> simp [owned, Charge.own]

@[simp] theorem marks_freed : marks h.freed = 0 := by
  unfold Handle.freed
  cases h.remote.objectId <;> simp [marks, Charge.mark]

@[simp] theorem refs_freed : refs h.freed = reference h.remote := by
  unfold Handle.freed reference
  cases h.remote.objectId <;> simp [refs, Charge.ref]

@[simp] theorem frees_freed : frees h.freed = 0 := by
  unfold Handle.freed
  cases h.remote.objectId <;> simp [frees, Charge.free]

@[simp] theorem owned_freed : owned h.freed = 0 := by
  unfold Handle.freed
  cases h.remote.objectId <;> simp [owned, Charge.own]

end Charges

/-! ### The account -/

/-- The world with the record of what it was asked. -/
abbrev Recorded (P : Peer) : Type := World P × List (Instant P)

/-- The recorded world after a question. -/
def Recorded.tell (x : Recorded P) (q : Query) : Recorded P :=
  ((x.1.answer q).2.1, x.2 ++ [⟨x.1, q⟩])

/-- The charges of the handles that are live before anything is asked. -/
def standing (w : World P) : Multiset Charge := (liveIn w.ledger).map Charge.standing

@[simp] theorem marks_standing (w : World P) : marks (standing w) = liveIn w.ledger := by
  rw [marks, standing, Multiset.bind_map]
  exact (Multiset.bind_singleton _ id).trans (Multiset.map_id _)

@[simp] theorem refs_standing (w : World P) : refs (standing w) = 0 := by
  simp [refs, standing, Multiset.bind_map, Charge.ref]

@[simp] theorem owned_standing (w : World P) : owned (standing w) = 0 := by
  simp [owned, standing, Multiset.bind_map, Charge.own]

@[simp] theorem frees_standing (w : World P) : frees (standing w) = 0 := by
  simp [frees, standing, Multiset.bind_map, Charge.free]

/-- The charges are what is left to be released in a recorded world. -/
structure Owes (x : Recorded P) (m : Multiset Charge) : Prop where
  /-- A handle that is live is charged, or the world's own. -/
  live : liveIn x.1.ledger = marks m + (total Instant.kept x.2).map Handle.id
  /-- A handle that was made was disposed, or is charged, or the world's own. -/
  handles : total Instant.made x.2 =
    total Instant.disposed x.2 + owned m + total Instant.kept x.2
  /-- A reference that was handed over was released, or is charged, or the world's own. -/
  refs : total Instant.given x.2 =
    total Instant.released x.2 + refs m + (total Instant.kept x.2).bind fun h => reference h.remote
  /-- Handles are made of references that were handed over, and of each only one. -/
  made : ((total Instant.made x.2).bind fun h => reference h.remote) + frees m ≤
    total Instant.given x.2

theorem owes_standing (w : World P) : Owes (w, []) (standing w) :=
  ⟨by simp, by simp, by simp, by simp⟩

/-- The question changes no account. -/
def Query.isIdle : Query → Bool
  | command _ _ | wrap _ | dispose _ | rememberUtility _ => false
  | _ => true

namespace Owes

variable {x : Recorded P} {m rest : Multiset Charge}

theorem tell {q : Query} {m' : Multiset Charge} (h : Owes x m)
    (hlive : liveIn (x.tell q).1.ledger + marks m =
      liveIn x.1.ledger + marks m' + (Instant.kept ⟨x.1, q⟩).map Handle.id)
    (hhandles : Instant.made ⟨x.1, q⟩ + owned m =
      Instant.disposed ⟨x.1, q⟩ + owned m' + Instant.kept ⟨x.1, q⟩)
    (hrefs : Instant.given ⟨x.1, q⟩ + Remote.refs m =
      Instant.released ⟨x.1, q⟩ + Remote.refs m' +
        (Instant.kept ⟨x.1, q⟩).bind fun h => reference h.remote)
    (hmade : ((Instant.made ⟨x.1, q⟩).bind fun h => reference h.remote) + frees m' ≤
      Instant.given ⟨x.1, q⟩ + frees m) : Owes (x.tell q) m' := by
  refine ⟨?_, ?_, ?_, ?_⟩
  · refine add_right_cancel (b := marks m) ?_
    rw [hlive, h.live]
    simp only [Recorded.tell, total_append, total_singleton, Multiset.map_add]
    abel
  · refine add_right_cancel (b := owned m) ?_
    simp only [Recorded.tell, total_append, total_singleton]
    rw [add_assoc, hhandles, h.handles]
    abel
  · refine add_right_cancel (b := Remote.refs m) ?_
    simp only [Recorded.tell, total_append, total_singleton, Multiset.add_bind]
    rw [add_assoc, hrefs, h.refs]
    abel
  · simp only [Recorded.tell, total_append, total_singleton, Multiset.add_bind]
    calc _ = ((total Instant.made x.2).bind fun h => reference h.remote) +
          (((Instant.made ⟨x.1, q⟩).bind fun h => reference h.remote) + frees m') := by abel
      _ ≤ _ + (Instant.given ⟨x.1, q⟩ + frees m) := add_le_add le_rfl hmade
      _ = (((total Instant.made x.2).bind fun h => reference h.remote) + frees m) +
          Instant.given ⟨x.1, q⟩ := by abel
      _ ≤ _ := add_le_add h.made le_rfl

/-- A question that changes no account. -/
theorem idle (h : Owes x m) {q : Query} (hq : q.isIdle = true) : Owes (x.tell q) m := by
  have hledger : (x.tell q).1.ledger = x.1.ledger := by
    cases q with
    | command | wrap | dispose | rememberUtility => exact absurd hq (by simp [Query.isIdle])
    | listen =>
      simp only [Recorded.tell, World.answer]
      split <;> rfl
    | _ => rfl
  have hnone : (Instant.given ⟨x.1, q⟩ = 0 ∧ Instant.released ⟨x.1, q⟩ = 0) ∧
      Instant.kept ⟨x.1, q⟩ = 0 ∧ Instant.made ⟨x.1, q⟩ = 0 ∧ Instant.disposed ⟨x.1, q⟩ = 0 := by
    cases q with
    | command | wrap | dispose | rememberUtility => exact absurd hq (by simp [Query.isIdle])
    | _ => exact ⟨⟨rfl, rfl⟩, rfl, rfl, rfl⟩
  obtain ⟨⟨hgiven, hreleased⟩, hkept, hmade, hdisposed⟩ := hnone
  refine h.tell ?_ ?_ ?_ ?_
  · rw [hledger, hkept]
    simp
  · rw [hmade, hdisposed, hkept]
    simp
  · rw [hgiven, hreleased, hkept]
    simp
  · rw [hgiven, hmade]
    simp

/-- A command releases a reference, or hands some over. -/
theorem command {m' : Multiset Charge} (h : Owes x m) {method : String} {params : Json}
    (hmarks : marks m' = marks m) (howned : owned m' = owned m)
    (hrefs : Instant.given ⟨x.1, .command method params⟩ + Remote.refs m =
      Instant.released ⟨x.1, .command method params⟩ + Remote.refs m')
    (hfrees : frees m' ≤ Instant.given ⟨x.1, .command method params⟩ + frees m) :
    Owes (x.tell (.command method params)) m' := by
  have hledger : (x.tell (.command method params)).1.ledger = x.1.ledger := rfl
  have hkept : Instant.kept ⟨x.1, .command method params⟩ = 0 := rfl
  have hmade : Instant.made ⟨x.1, .command method params⟩ = 0 := rfl
  have hdisposed : Instant.disposed ⟨x.1, .command method params⟩ = 0 := rfl
  refine h.tell ?_ ?_ ?_ ?_
  · rw [hledger, hmarks, hkept]
    simp
  · rw [hmade, hdisposed, hkept, howned]
    simp
  · rw [hrefs, hkept]
    simp
  · rw [hmade]
    simpa using hfrees

/-- A handle is made of a value that was handed over. -/
theorem wrap {r : RemoteObject} (h : Owes x (loose r + rest)) :
    Owes (x.tell (.wrap r)) ((x.1.wrap r).1.charge + rest) := by
  refine h.tell ?_ ?_ ?_ ?_
  · have hledger : (x.tell (.wrap r)).1.ledger = x.1.ledger.push false := rfl
    have hid : (x.1.wrap r).1.id = x.1.ledger.size := rfl
    rw [hledger, liveIn_push, ← Multiset.singleton_add]
    simp only [marks_add, marks_loose, marks_charge, hid, Instant.kept, Multiset.map_zero]
    abel
  · simp [Instant.made, Instant.disposed, Instant.kept]
  · simp [Instant.given, Instant.released, Instant.kept, World.wrap]
  · simp [Instant.given, Instant.made, World.wrap]

theorem mem_live (h : Owes x m) {id : Nat} (hid : id ∈ marks m) : id ∈ liveIn x.1.ledger := by
  rw [h.live]
  exact Multiset.mem_add.mpr (Or.inl hid)

/-- A handle that is charged is not disposed. -/
theorem isDisposed (h : Owes x m) {handle : Handle} (hid : handle.id ∈ marks m) :
    x.1.isDisposed handle = false := by
  unfold World.isDisposed
  rw [mem_liveIn.mp (h.mem_live hid)]
  rfl

/-- A handle is disposed for the first time. -/
theorem dispose {handle : Handle} (h : Owes x (handle.charge + rest)) :
    Owes (x.tell (.dispose handle)) (handle.freed + rest) := by
  have hlive : handle.id ∈ liveIn x.1.ledger := h.mem_live (by simp)
  have hfirst : x.1.isDisposed handle = false := h.isDisposed (by simp)
  refine h.tell ?_ ?_ ?_ ?_
  · have hledger : (x.tell (.dispose handle)).1.ledger =
        x.1.ledger.setIfInBounds handle.id true := rfl
    rw [hledger, liveIn_set hlive, ← Multiset.singleton_add]
    simp only [marks_add, marks_freed, marks_charge, Instant.kept, Multiset.map_zero]
    abel
  · simp [Instant.made, Instant.disposed, Instant.kept, hfirst]
  · simp [Instant.given, Instant.released, Instant.kept]
  · simp [Instant.given, Instant.made]

/-- A handle becomes the world's own. -/
theorem remember {handle : Handle} (h : Owes x (handle.charge + rest)) :
    Owes (x.tell (.rememberUtility handle)) rest := by
  refine h.tell ?_ ?_ ?_ ?_
  · have hledger : (x.tell (.rememberUtility handle)).1.ledger = x.1.ledger := rfl
    rw [hledger]
    simp only [marks_add, marks_charge, Instant.kept, Multiset.map_singleton]
    abel
  · simp [Instant.made, Instant.disposed, Instant.kept, add_comm]
  · simp only [Instant.given, Instant.released, Instant.kept, refs_add, refs_charge, zero_add,
      Multiset.singleton_bind]
    exact add_comm _ _
  · simp [Instant.given, Instant.made]

end Owes

end Wayfind.Remote
