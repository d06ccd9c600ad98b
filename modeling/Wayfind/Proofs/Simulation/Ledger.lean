/-
Which handles of the simulated page are live.

The ledger only ever grows, and a handle that was released stays released.  A question
other than a release adds to the live handles exactly those in its answer (`gained`), and
a release takes its handle away; nothing else touches the ledger.
-/
import Mathlib.Algebra.Order.Group.Multiset
import Wayfind.Proofs.Page.Ledger
import Wayfind.Simulation.Side

namespace Wayfind.Simulation

namespace Page

/-- The places in the ledger of the handles that are live. -/
def liveIds (p : Page) : Multiset Nat :=
  (Multiset.range p.created).filter fun id => p.ledger[id]? = some false

theorem mem_liveIds {p : Page} {id : Nat} : id ∈ p.liveIds ↔ p.ledger[id]? = some false := mem_liveIn

theorem nodup_liveIds (p : Page) : p.liveIds.Nodup := nodup_liveIn p.ledger

/-- The page counts the handles that are live. -/
theorem card_liveIds (p : Page) : p.liveIds.card = p.live := by
  have hlist : ∀ l : List Bool,
      ((List.range l.length).filter fun id => l[id]? = some false).length =
        (l.filter (!·)).length := by
    intro l
    induction l with
    | nil => rfl
    | cons b l ih =>
      rw [List.length_cons, List.range_succ_eq_map, List.filter_cons, List.filter_map,
        List.filter_cons]
      have hshift : ((fun id => decide ((b :: l)[id]? = some false)) ∘ Nat.succ) =
          fun id => decide (l[id]? = some false) := by
        funext id
        simp
      rw [hshift]
      cases b <;> simp [ih]
  have hl := hlist p.ledger.toList
  simp only [Array.length_toList, Array.getElem?_toList] at hl
  simpa [liveIds, live, created, Multiset.range] using hl

/-! ### Making and releasing -/

theorem liveIds_release {p : Page} {h : Handle} (hlive : h.id ∈ p.liveIds) :
    p.liveIds = h.id ::ₘ (p.release h).liveIds :=
  liveIn_set hlive

end Page

/-! ### What a question adds -/

/-- The handle in an outcome. -/
def handleOf : Except Error Handle → Multiset Nat
  | .ok h => {h.id}
  | .error _ => 0

/-- The question asks for a handle to be released. -/
def isRelease : Query → Bool
  | .release _ => true
  | _ => false

/-- The handles made for an answer. -/
def gained : (q : Query) → q.Answer → Multiset Nat
  | .look _ _, .found h => {h.id}
  | .find _, some h => {h.id}
  | .callHandle _, r => handleOf r
  | .newHandle _, h => {Handle.id h}
  | .newHandles _, hs => (List.map Handle.id hs : List Nat)
  | .mapHandle _ _, r => handleOf r
  | _, _ => 0

theorem ledger_call (p : Page) (script : String) : (p.call script).2.ledger = p.ledger := by
  unfold Page.call
  split
  · rfl
  · split <;> rfl

theorem ledger_onHandle {α : Type} (p : Page) (h : Handle)
    (act : Element → Except Error α × Element) : (p.onHandle h act).2.ledger = p.ledger := by
  unfold Page.onHandle
  split <;> rfl

theorem ledger_change (c : Change) (p : Page) : (c.apply p).ledger = p.ledger := by
  cases c <;> rfl

/-- The page after it has made handles with these numbers, the next ones of its ledger. -/
def Adds (p : Page) (ids : Multiset Nat) (after : Page) : Prop :=
  ∃ n, after.ledger = p.ledger ++ Array.replicate n false ∧ ids = (List.range' p.created n : List Nat)

namespace Adds

variable {p after : Page}

theorem none (h : after.ledger = p.ledger) : Adds p 0 after := ⟨0, by simpa using h, rfl⟩

theorem one {called : Page} (h : called.ledger = p.ledger) (target : Target) :
    Adds p {(called.newHandle target).1.id} (called.newHandle target).2 := by
  refine ⟨1, ?_, ?_⟩
  · simp [Page.newHandle, h]
  · simp [Page.newHandle, Page.created, h]

theorem many (targets : List Target) (p : Page) :
    Adds p ((p.newHandles targets).1.map (·.id) : List Nat) (p.newHandles targets).2 := by
  induction targets generalizing p with
  | nil => exact none rfl
  | cons target rest ih =>
    obtain ⟨n, hledger, hids⟩ := ih (p.newHandle target).2
    have hnext : (p.newHandle target).2.created = p.created + 1 := Array.size_push ..
    refine ⟨n + 1, ?_, ?_⟩
    · refine hledger.trans ?_
      rw [show (p.newHandle target).2.ledger = p.ledger.push false from rfl, Array.push_eq_append,
        Array.append_assoc, Array.replicate_succ']
    · simp only [Page.newHandles, List.map_cons, ← Multiset.cons_coe, hids, hnext]
      rfl

end Adds

/-- Only a release takes a handle off the ledger; another question adds the handles in its answer. -/
theorem adds_answer (p : Page) {q : Query} (hq : isRelease q = false) :
    Adds p (gained q (p.answer q).1) (p.answer q).2 := by
  cases q with
  | look selector wait =>
    simp only [Page.answer, Page.look]
    split
    · split <;> exact .none rfl
    · split <;> split
      · exact .one rfl _
      · exact .none rfl
      · exact .one rfl _
      · exact .none rfl
  | find selector =>
    simp only [Page.answer, Page.find]
    split
    · exact .none rfl
    · exact .one rfl _
  | call script => exact .none (ledger_call p script)
  | callHandle script =>
    simp only [Page.answer, Page.callHandle]
    have hledger := ledger_call p script
    rcases hc : p.call script with ⟨r, p'⟩
    rw [hc] at hledger
    cases r with
    | ok target => exact .one hledger target
    | error e => exact .none hledger
  | newHandle target => exact .one rfl target
  | newHandles targets => exact .many targets p
  | holds script id =>
    simp only [Page.answer, Page.holds]
    split <;> exact .none rfl
  | mapHandle h script =>
    simp only [Page.answer, Page.mapHandle]
    split
    · exact .none rfl
    · split
      · exact .none rfl
      · exact .one rfl _
  | evaluate h script args => exact .none (ledger_onHandle p h _)
  | click h options => exact .none (ledger_onHandle p h _)
  | hover h => exact .none (ledger_onHandle p h _)
  | focus h => exact .none (ledger_onHandle p h _)
  | typeText h text => exact .none (ledger_onHandle p h _)
  | select h values => exact .none (ledger_onHandle p h _)
  | scrollIntoView h => exact .none (ledger_onHandle p h _)
  | isInViewport h => exact .none (ledger_onHandle p h _)
  | release h => exact absurd hq (by simp [isRelease])
  | change c => exact .none (ledger_change c p)
  | _ => exact .none rfl

theorem liveIn_append_replicate (ledger : Array Bool) (n : Nat) :
    liveIn (ledger ++ Array.replicate n false) = (List.range' ledger.size n : List Nat) + liveIn ledger := by
  induction n with
  | zero => simp
  | succ n ih =>
    rw [Array.replicate_succ, ← Array.push_append, liveIn_push, ih, List.range'_1_concat,
      ← Multiset.coe_add, ← Multiset.singleton_add]
    simp only [Array.size_append, Array.size_replicate, Multiset.coe_singleton]
    ac_rfl

/-- The live handles after a question are those before and those in the answer. -/
theorem liveIds_answer (p : Page) {q : Query} (hq : isRelease q = false) :
    (p.answer q).2.liveIds = gained q (p.answer q).1 + p.liveIds := by
  obtain ⟨n, hledger, hids⟩ := adds_answer p hq
  rw [hids]
  refine Eq.trans ?_ (liveIn_append_replicate p.ledger n)
  unfold Page.liveIds Page.created
  rw [hledger]
  rfl

end Wayfind.Simulation
