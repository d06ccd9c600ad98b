/-
Ledgers of handles.

A ledger says of every handle, under its number, whether it was released.  It only grows,
and what was released stays so: a new handle is added to the live ones, a release takes
one away.
-/
import Mathlib.Data.Multiset.Range
import Mathlib.Data.Multiset.UnionInter

namespace Wayfind

/-- At most one, as a multiset. -/
def ofOption {α : Type} (o : Option α) : Multiset α := (o.toList : Multiset α)

@[simp] theorem ofOption_none {α : Type} : ofOption (none : Option α) = 0 := rfl

@[simp] theorem ofOption_some {α : Type} (a : α) : ofOption (some a) = {a} := rfl

@[simp] theorem mem_ofOption {α : Type} {a : α} {o : Option α} : a ∈ ofOption o ↔ o = some a := by
  cases o <;> simp [eq_comm]

/-- The numbers of the live handles of a ledger. -/
def liveIn (ledger : Array Bool) : Multiset Nat :=
  (Multiset.range ledger.size).filter fun id => ledger[id]? = some false

variable {ledger : Array Bool} {id : Nat}

theorem mem_liveIn : id ∈ liveIn ledger ↔ ledger[id]? = some false := by
  rw [liveIn, Multiset.mem_filter, Multiset.mem_range]
  refine ⟨And.right, fun h => ⟨?_, h⟩⟩
  by_contra hc
  rw [Array.getElem?_eq_none (Nat.le_of_not_lt hc)] at h
  exact absurd h (by simp)

theorem nodup_liveIn (ledger : Array Bool) : (liveIn ledger).Nodup :=
  (Multiset.nodup_range _).filter _

theorem lt_of_mem_liveIn (h : id ∈ liveIn ledger) : id < ledger.size :=
  Multiset.mem_range.mp (Multiset.mem_filter.mp h).1

theorem liveIn_push (ledger : Array Bool) :
    liveIn (ledger.push false) = ledger.size ::ₘ liveIn ledger := by
  refine (Multiset.Nodup.ext (nodup_liveIn _) ?_).mpr ?_
  · refine Multiset.nodup_cons.mpr ⟨?_, nodup_liveIn ledger⟩
    rw [mem_liveIn]
    simp
  · intro other
    rw [Multiset.mem_cons, mem_liveIn, mem_liveIn]
    simp only [Array.getElem?_push]
    by_cases h : other = ledger.size
    · simp [h]
    · simp [h]

theorem liveIn_set (hlive : id ∈ liveIn ledger) :
    liveIn ledger = id ::ₘ liveIn (ledger.setIfInBounds id true) := by
  refine (Multiset.Nodup.ext (nodup_liveIn _) ?_).mpr ?_
  · refine Multiset.nodup_cons.mpr ⟨?_, nodup_liveIn _⟩
    rw [mem_liveIn, Array.getElem?_setIfInBounds]
    split
    · split <;> simp
    · exact absurd rfl ‹_›
  · intro other
    rw [Multiset.mem_cons, mem_liveIn, mem_liveIn]
    simp only [Array.getElem?_setIfInBounds]
    by_cases hid : id = other
    · subst hid
      rw [mem_liveIn] at hlive
      simp [hlive]
    · simp [hid, Ne.symm hid]

end Wayfind
