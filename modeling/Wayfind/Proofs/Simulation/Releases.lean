/-
Which handles the simulated page has made and released.

A recorded page remembers what it was asked, so the record shows the handles that answers
have made and those that were released.  No number is used for two handles.  `Tallies` says
that some of them are left, and so the record keeps account of handles like the ledger.
-/
import Wayfind.Proofs.Activity.Recording
import Wayfind.Proofs.Simulation.Custody

namespace Wayfind.Simulation

variable {patience : Nat} {base : Multiset Nat}

/-- A question to the page at the instant when it was asked. -/
abbrev Instant : Type := Activity.Moment Query Page

/-- The backend whose page remembers what it was asked. -/
abbrev recording (patience : Nat) : Activity.Backend side.signature := (backend patience).recorded

/-- The handles that the page made in answer. -/
def Instant.made (i : Instant) : Multiset Nat := gained i.query (i.world.answer i.query).1

/-- The handle that the page was told to release. -/
def Instant.released : Instant → Multiset Nat
  | ⟨_, .release h⟩ => {h.id}
  | _ => 0

/-- The handles that were made. -/
def madeIn (record : List Instant) : Multiset Nat := (record.map Instant.made).sum

/-- The handles that were released, each as often as it was. -/
def releasedIn (record : List Instant) : Multiset Nat := (record.map Instant.released).sum

@[simp] theorem madeIn_concat (record : List Instant) (i : Instant) :
    madeIn (record ++ [i]) = madeIn record + i.made := by
  simp [madeIn]

@[simp] theorem releasedIn_concat (record : List Instant) (i : Instant) :
    releasedIn (record ++ [i]) = releasedIn record + i.released := by
  simp [releasedIn]

/-- Of the handles from before and those that were made, these are left to be released. -/
structure Tallies (base : Multiset Nat) (x : Page × List Instant) (left : Multiset Nat) : Prop where
  released : base + madeIn x.2 = releasedIn x.2 + left
  nodup : (base + madeIn x.2).Nodup
  created : ∀ id ∈ base + madeIn x.2, id < x.1.created

/-- Before anything is asked the live handles are left. -/
theorem tallies_nil (p : Page) : Tallies p.liveIds (p, []) p.liveIds := by
  refine ⟨?_, ?_, fun id hid => ?_⟩
  · simp [madeIn, releasedIn]
  · simpa [madeIn] using Page.nodup_liveIds p
  · have hlive : id ∈ p.liveIds := by simpa only [madeIn, List.map_nil, List.sum_nil, add_zero] using hid
    exact lt_of_mem_liveIn hlive

namespace Tallies

variable {x : Page × List Instant} {left : Multiset Nat}

/-- An answer leaves the handles that it makes. -/
theorem answer (h : Tallies base x left) {q : Query} (hq : isRelease q = false) :
    Tallies base ((x.1.answer q).2, x.2 ++ [⟨x.1, q⟩]) (gained q (x.1.answer q).1 + left) := by
  obtain ⟨n, hledger, hids⟩ := adds_answer x.1 hq
  have hmade : Instant.made ⟨x.1, q⟩ = (List.range' x.1.created n : List Nat) := hids
  have hreleased : Instant.released ⟨x.1, q⟩ = 0 := by
    cases q with
    | release h => exact absurd hq (by simp [isRelease])
    | _ => rfl
  have hcreated : (x.1.answer q).2.created = x.1.created + n := by
    unfold Page.created
    rw [hledger]
    simp
  refine ⟨?_, ?_, ?_⟩
  · simp only [madeIn_concat, releasedIn_concat, hmade, hids, hreleased, add_zero]
    rw [← add_assoc, h.released]
    ac_rfl
  · simp only [madeIn_concat, hmade]
    rw [← add_assoc, Multiset.nodup_add]
    refine ⟨h.nodup, Multiset.coe_nodup.mpr List.nodup_range', ?_⟩
    rw [Multiset.disjoint_left]
    intro id hbefore hnew
    have hlt := h.created id hbefore
    have hge := (List.mem_range'_1.mp (Multiset.mem_coe.mp hnew)).1
    omega
  · intro id hid
    simp only [madeIn_concat, hmade] at hid
    rw [hcreated]
    rw [← add_assoc] at hid
    rcases Multiset.mem_add.mp hid with hid | hid
    · exact Nat.lt_of_lt_of_le (h.created id hid) (Nat.le_add_right _ _)
    · exact (List.mem_range'_1.mp (Multiset.mem_coe.mp hid)).2

theorem release {handle : Handle} (h : Tallies base x ({handle.id} + left)) :
    Tallies base (x.1.release handle, x.2 ++ [⟨x.1, .release handle⟩]) left := by
  have hmade : Instant.made ⟨x.1, .release handle⟩ = 0 := rfl
  have hreleased : Instant.released ⟨x.1, .release handle⟩ = {handle.id} := rfl
  have hcreated : (x.1.release handle).created = x.1.created := Array.size_setIfInBounds ..
  refine ⟨?_, ?_, ?_⟩
  · simp only [madeIn_concat, releasedIn_concat, hmade, hreleased, add_zero]
    rw [h.released, add_assoc]
  · simpa only [madeIn_concat, hmade, add_zero] using h.nodup
  · simpa only [madeIn_concat, hmade, add_zero, hcreated] using h.created

end Tallies

/-- The record keeps account of handles. -/
theorem books_recording (patience : Nat) (base : Multiset Nat) :
    Books patience (recording patience) (Tallies base) where
  start := rfl
  discard := rfl
  answer hq hw := ⟨rfl, hw.answer hq⟩
  release hw := ⟨rfl, hw.release⟩

end Wayfind.Simulation
