/-
The simulated page keeps account of its handles.

What a world owes are the numbers of handles that have to be released.  Whatever answers
as the page does may keep the books of that in its own way (`Books`): the page itself by
its ledger, and a page whose questions are recorded by the record as well.
-/
import Wayfind.Proofs.Keeping.Discipline
import Wayfind.Proofs.Simulation.Looking

namespace Wayfind.Simulation

open Activity (Prompt)
open Keeping (Account Amid Brings Idles Custody)
open PageSide (Action)

/-- A backend of the simulated page whose worlds owe handles: an answer makes those that it gains due,
and a release settles its own. -/
structure Books (patience : Nat) (K : Activity.Backend side.signature)
    (Owes : K.World → Multiset Nat → Prop) : Prop where
  start : K.start = (backend patience).start
  discard : K.discard = (backend patience).discard
  answer : ∀ {q : Query} {w : K.World} {rest : Multiset Nat}, isRelease q = false → Owes w rest →
    (K.answer q w).2.2 = [] ∧ Owes (K.answer q w).2.1 (gained q (K.answer q w).1 + rest)
  release : ∀ {h : Handle} {w : K.World} {rest : Multiset Nat}, Owes w ({h.id} + rest) →
    (K.answer (Query.release h) w).2.2 = [] ∧ Owes (K.answer (Query.release h) w).2.1 rest

/-- A handle is charged once, under its number. -/
abbrev account (K : Activity.Backend side.signature) (Owes : K.World → Multiset Nat → Prop) :
    Account K where
  Charge := Nat
  charge h := {Handle.id h}
  Owes := Owes

variable {patience : Nat} {K : Activity.Backend side.signature} {Owes : K.World → Multiset Nat → Prop}
  {α : Type}

theorem chargeOf_account (r : Except Error Handle) : (account K Owes).chargeOf r = handleOf r := by
  cases r <;> rfl

theorem chargeIn_account (r : Except Error (Option Handle)) :
    (account K Owes).chargeIn r = foundIn r := by
  rcases r with e | _ | h <;> rfl

namespace Books

/-- A question that gains no handle changes no account. -/
theorem keeps (books : Books patience K Owes) {q : Query} {w : K.World} {rest : Multiset Nat}
    (hq : isRelease q = false) (hgained : ∀ a, gained q a = 0) (hw : Owes w rest) :
    (K.answer q w).2.2 = [] ∧ Owes (K.answer q w).2.1 rest := by
  obtain ⟨hjobs, hafter⟩ := books.answer hq hw
  have hnone : gained q (K.answer q w).1 + rest = rest := by
    rw [show gained q (K.answer q w).1 = 0 from hgained _, zero_add]
  exact ⟨hjobs, (congrArg (Owes _) hnone).mp hafter⟩

/-- What is acquired has to be released. -/
theorem amid (books : Books patience K Owes) {P : α → Multiset Nat → Prop} {p : side.Task α}
    {g rest : Multiset Nat} {w : K.World} (h : Acquires P p g) (hw : Owes w (g + rest)) :
    Amid (account K Owes) (fun a rest w => ∃ g, P a g ∧ Owes w (g + rest)) p rest w := by
  induction p generalizing g rest w with
  | done a => exact ⟨g, h, hw⟩
  | ask r watched duties next stop ihn ihs =>
    cases r with
    | query q =>
      obtain ⟨-, -, hq, hnext⟩ := h
      obtain ⟨hjobs, hafter⟩ := books.answer hq hw
      rw [← add_assoc] at hafter
      exact ⟨hjobs, ihn _ (hnext _) hafter⟩
    | clock => exact fun time => ihn time (h.2.2 time) hw
    | announce => exact ihn () h.2.2 hw
    | sleepUntil time =>
      obtain ⟨rfl, rfl, rfl, hnext⟩ := h
      rw [zero_add] at hw
      exact ⟨rfl, rfl, hw, fun others v hv =>
        ihn () hnext ((congrArg (Owes v) (zero_add others)).mpr hv)⟩
    | forever =>
      obtain ⟨rfl, rfl, rfl⟩ := h
      rw [zero_add] at hw
      exact ⟨rfl, rfl, hw⟩
    | _ => exact absurd h id

theorem brings (books : Books patience K Owes) {a : side.Action α}
    {m : Except Error α → Multiset Nat} (h : Acquires (fun r g => g = m r) a.outcome 0) :
    Brings (account K Owes) 0 a m := by
  intro w rest hw
  refine (books.amid h hw).mono ?_
  rintro r rest w ⟨g, rfl, hw⟩
  exact hw

theorem idles (books : Books patience K Owes) {a : side.Action α} (h : Harmless a) :
    Idles (account K Owes) a :=
  books.brings (h _ 0 fun _ => rfl)

/-- The page keeps account of its handles. -/
def custody (books : Books patience K Owes) : Custody K (browser patience) where
  toAccount := account K Owes
  Expected _ := True
  ofChore := Timed.activity
  start := books.start
  discard := books.discard
  chores timed _ := by
    refine ⟨timed.time, Activity.query (S := side.signature) (.change timed.change), rfl, ?_⟩
    intro w rest hw
    exact books.keeps (q := .change timed.change) rfl (fun _ => rfl) hw
  calm _ := rfl
  release _ _ _ hw := books.release hw
  jsonValue h w rest hw := by
    obtain ⟨hjobs, hafter⟩ := books.keeps (q := .jsonValue h) rfl (fun _ => rfl) hw
    exact Activity.prompt_ask.mpr ⟨hjobs, Activity.prompt_ofExcept.mpr hafter⟩
  waitForSelector _ selector wait := by
    rw [show (account K Owes).chargeIn = foundIn from funext chargeIn_account]
    exact books.brings (acquires_waitForSelector selector wait)
  waitForFunction _ script _ := by
    rw [show (account K Owes).chargeOf = handleOf from funext chargeOf_account]
    exact books.brings (acquires_callHandle script)
  waitFor script wait h := by
    rw [show (account K Owes).chargeOf = handleOf from funext chargeOf_account]
    exact books.brings (acquires_waitFor script wait _)
  evaluateHandle h script := by
    rw [show (account K Owes).chargeOf = handleOf from funext chargeOf_account]
    exact books.brings (acquires_evaluateHandle h script)
  evaluate h script args := books.idles ((harmless_ask rfl fun _ => rfl).bind harmless_ofExcept)
  click h options := books.idles ((harmless_ask rfl fun _ => rfl).bind harmless_ofExcept)
  hover h := books.idles ((harmless_ask rfl fun _ => rfl).bind harmless_ofExcept)
  focus h := books.idles ((harmless_ask rfl fun _ => rfl).bind harmless_ofExcept)
  typeText h text := books.idles ((harmless_ask rfl fun _ => rfl).bind harmless_ofExcept)
  select h values := books.idles ((harmless_ask rfl fun _ => rfl).bind harmless_ofExcept)
  scrollIntoView h := books.idles ((harmless_ask rfl fun _ => rfl).bind harmless_ofExcept)
  isIntersecting h part := books.idles ((harmless_ask rfl fun _ => rfl).bind harmless_ofExcept)

end Books

/-- The ledger of the page shows what it owes. -/
theorem books_backend (patience : Nat) : Books patience (backend patience) fun p m => p.liveIds = m where
  start := rfl
  discard := rfl
  answer {q p rest} hq hp := by
    refine ⟨rfl, (liveIds_answer p hq).trans ?_⟩
    rw [hp]
    rfl
  release {h p rest} hp := by
    have hlive : h.id ∈ p.liveIds := by
      rw [hp]
      exact Multiset.mem_add.mpr (Or.inl (Multiset.mem_singleton_self _))
    refine ⟨rfl, ?_⟩
    have hreleased := Page.liveIds_release hlive
    rw [hp, Multiset.singleton_add] at hreleased
    exact ((Multiset.cons_inj_right _).mp hreleased).symm

end Wayfind.Simulation
