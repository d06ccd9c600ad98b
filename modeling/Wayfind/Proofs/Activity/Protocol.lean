/-
Activities that follow a protocol.

A protocol says which requests may be made at each of its stages, and to which stages the
answers lead.  An activity follows it when every request it makes is such a move, whatever
is answered.  So what every move keeps is kept as far as the activity goes
(`Follows.advance`).
-/
import Wayfind.Proofs.Activity.Lull
import Wayfind.Proofs.Page.Outcome

namespace Wayfind

open PageSide (Action)

namespace Activity

open Timeline (advance resume)

variable {S : Signature} {K : Backend S} {σ α β : Type}
  {M : σ → (r : Request S) → (r.Answer → σ) → Prop} {st : σ}

/-- The activity, begun at a stage, makes no request that the protocol does not have, and ends as it
should. -/
def Follows (M : σ → (r : Request S) → (r.Answer → σ) → Prop) (Q : σ → α → Prop) :
    σ → Activity S α → Prop
  | st, .done a => Q st a
  | st, .ask r _ _ next stop =>
    ∃ after, M st r after ∧ (∀ a, Follows M Q (after a) (next a)) ∧ ∀ t h, Follows M Q st (stop t h)

theorem Follows.mono {Q Q' : σ → α → Prop} {p : Activity S α} (h : Follows M Q st p)
    (hQ : ∀ st a, Q st a → Q' st a) : Follows M Q' st p := by
  induction p generalizing st with
  | done a => exact hQ st a h
  | ask r ws duties next stop ihn ihs =>
    obtain ⟨after, hmoves, hnext, hstop⟩ := h
    exact ⟨after, hmoves, fun a => ihn a (hnext a), fun t ht => ihs t ht (hstop t ht)⟩

theorem follows_bind {Q : σ → β → Prop} {p : Activity S α} {f : α → Activity S β} :
    Follows M Q st (bind p f) ↔ Follows M (fun st a => Follows M Q st (f a)) st p := by
  induction p generalizing st with
  | done a => exact Iff.rfl
  | ask r ws duties next stop ihn ihs => simp only [bind, Follows, ihn, ihs]

theorem follows_protect {Q : σ → α → Prop} {p : Activity S α} (duties : List (Duty S)) :
    Follows M Q st (protect duties p) ↔ Follows M Q st p := by
  induction p generalizing st with
  | done a => exact Iff.rfl
  | ask r ws own next stop ihn ihs => simp only [protect, Follows, ihn, ihs]

/-- Every move that can be made keeps what is said of the timeline at its stage. -/
def KeptByMoves (M : σ → (r : Request S) → (r.Answer → σ) → Prop) (I : σ → Timeline S K.World → Prop) :
    Prop :=
  ∀ (st : σ) (r : Request S) (lead : r.Answer → σ) (a : r.Answer) (tl after : Timeline S K.World),
    M st r lead → Timeline.perform K tl r = some (a, after) → I st tl → I (lead a) after

/-- What every move keeps is kept as far as the activity goes. -/
theorem Follows.advance {Q : σ → α → Prop} {I : σ → Timeline S K.World → Prop}
    (hI : KeptByMoves M I)
    {p : Activity S α} (h : Follows M Q st p) {tl : Timeline S K.World} (hi : I st tl) :
    ∃ st', Follows M Q st' (advance K p tl).1 ∧ I st' (advance K p tl).2 := by
  induction p generalizing st tl with
  | done a => exact ⟨st, h, hi⟩
  | ask r ws duties next stop ihn ihs =>
    rcases hp : Timeline.perform K tl r with _ | ⟨a, after⟩
    · simp only [Timeline.advance, hp]
      exact ⟨st, h, hi⟩
    · simp only [Timeline.advance, hp]
      obtain ⟨lead, hmoves, hnext, -⟩ := h
      exact ihn a (hnext a) (hI st r lead a tl after hmoves hp hi)

/-- What takes the place of an interrupted activity stands where the activity stood. -/
theorem Follows.exists_advance {Q : σ → α → Prop} {p : Activity S α} (h : Follows M Q st p)
    (tl : Timeline S K.World) :
    ∃ q, Follows M Q st q ∧ resume K p tl = Timeline.advance K q tl := by
  refine Timeline.resume_eq_advance tl h ?_
  rintro r ws duties next stop rfl t ht
  obtain ⟨lead, -, -, hstop⟩ := h
  exact hstop t ht

theorem Follows.resume {Q : σ → α → Prop} {I : σ → Timeline S K.World → Prop}
    (hI : KeptByMoves M I)
    {p : Activity S α} (h : Follows M Q st p) {tl : Timeline S K.World} (hi : I st tl) :
    ∃ st', Follows M Q st' (resume K p tl).1 ∧ I st' (resume K p tl).2 := by
  obtain ⟨q, hq, hresume⟩ := h.exists_advance tl
  rw [hresume]
  exact hq.advance hI hi

end Activity

/-! ### Actions -/

namespace Activity

variable {B : PageSide} {σ α β : Type} {M : σ → (r : Request B.signature) → (r.Answer → σ) → Prop}
  {st : σ}

theorem follows_request {Q : σ → Except Error β → Prop} {r : Request B.signature}
    {after : r.Answer → σ} {f : r.Answer → B.Action β} (hmoves : M st r after)
    (hf : ∀ a, Follows M Q (after a) (f a).outcome) :
    Follows M Q st (Action.perform r >>= f).outcome := by
  rw [Action.perform, outcome_lift_bind, bind_perform]
  exact ⟨after, hmoves, hf, fun t h => absurd h List.not_mem_nil⟩

/-- An action followed by another, which is skipped after a failure. -/
theorem Follows.andThen {R : σ → Except Error α → Prop} {Q : σ → Except Error β → Prop}
    {a : B.Action α} {f : α → B.Action β} (ha : Follows M R st a.outcome)
    (hok : ∀ st v, R st (.ok v) → Follows M Q st (f v).outcome)
    (herror : ∀ st e, R st (.error e) → Q st (.error e)) : Follows M Q st (a >>= f).outcome := by
  rw [outcome_bind, follows_bind]
  refine ha.mono fun st r hr => ?_
  cases r with
  | ok v => exact hok st v hr
  | error e => exact herror st e hr

/-- An action whose failure is looked at. -/
theorem Follows.attempt {R : σ → Except Error α → Prop} {Q : σ → Except Error β → Prop}
    {a : B.Action α} {f : Except Error α → B.Action β} (ha : Follows M R st a.outcome)
    (hf : ∀ st r, R st r → Follows M Q st (f r).outcome) : Follows M Q st (a.attempt >>= f).outcome := by
  rw [outcome_attempt_bind, follows_bind]
  exact ha.mono hf

theorem follows_ofExcept {Q : σ → Except Error α → Prop} {r : Except Error α} (h : Q st r) :
    Follows M Q st (Action.ofExcept r : B.Action α).outcome := by
  rw [outcome_ofExcept]
  exact h

end Activity

end Wayfind
