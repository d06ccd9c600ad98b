/-
What the tokens of an operation say about its end.

An operation that finds its token cancelled looks at `expired` to learn why.  `Errands`
says that what it concludes is true: `expired` is cancelled only when the time is over,
and the token is cancelled only with `expired` or with the caller's signal.  Nothing else
reaches these tokens, neither the end of a race nor another operation: the token stands
under nothing but the signal, the others under nothing at all.
-/
import Wayfind.Proofs.Keeping.Share

namespace Wayfind.Keeping

open Activity (Token Tokens)

/-- What the tokens of an operation say is true. -/
structure Errand.Sound (made : Nat) (tokens : Tokens) (clock : Nat) (e : Errand) : Prop where
  distinct : e.tokens.Nodup
  signal : ∀ s ∈ e.signal, s < made
  limit : (e.interrupt.timeout = 0 ∧ e.interrupt.deadline = none) ∨
    (0 < e.interrupt.timeout ∧ e.interrupt.deadline = some (e.began + e.interrupt.timeout) ∧
      clock ≤ e.began + e.interrupt.timeout)
  expired : tokens.isCancelled e.interrupt.expired = true →
    0 < e.interrupt.timeout ∧ e.began + e.interrupt.timeout ≤ clock
  token : tokens.isCancelled e.interrupt.token = true →
    tokens.isCancelled e.interrupt.expired = true ∨ ∃ s ∈ e.signal, tokens.isCancelled s = true
  ended : ∀ t ∈ e.ended, tokens.isCancelled t = false
  parent : ∀ a, e.interrupt.token ∈ tokens.children a → e.signal = some a
  lone : ∀ a, e.interrupt.expired ∉ tokens.children a ∧ ∀ t ∈ e.ended, t ∉ tokens.children a

/-- The operations under way and those whose deadline is waited for. -/
structure Errands (made : Nat) (tokens : Tokens) (clock : Nat) (running timed : Multiset Errand) :
    Prop where
  sound : ∀ e ∈ running, e.Sound made tokens clock
  single : running.Nodup
  range : ∀ e ∈ running + timed, ∀ t ∈ e.tokens, made ≤ t ∧ t < tokens.count
  apart : ∀ e ∈ running + timed, ∀ e' ∈ running + timed, e = e' ∨ ∀ t ∈ e.tokens, t ∉ e'.tokens
  /-- The deadline of an operation under way is waited for. -/
  timed : ∀ e ∈ running, e.interrupt.deadline.isSome = true →
    tokens.isCancelled e.interrupt.token = true ∨ e ∈ timed

variable {made : Nat} {t : Token} {tokens after : Tokens} {clock : Nat} {running timed : Multiset Errand}

theorem Errand.mem_tokens {e : Errand} {t : Token} :
    t ∈ e.tokens ↔ t = e.interrupt.token ∨ t = e.interrupt.expired ∨ e.ended = some t := by
  simp [Errand.tokens]

/-! ### Cancelling -/

/-- A token that stands under nothing is cancelled on its own only. -/
theorem eq_of_mem_under (hf : tokens.Forest) {t u : Token} (hlone : ∀ a, u ∉ tokens.children a)
    (h : u ∈ tokens.under t) : u = t := by
  rcases Tokens.eq_or_mem_row_of_mem_under hf h with rfl | ⟨a, -, hrow⟩
  · rfl
  · exact absurd (Tokens.mem_children_of_mem_row hrow) (hlone a)

theorem Cut.lone (hc : Cut tokens t after) (hf : tokens.Forest) {u : Token}
    (hlone : ∀ a, u ∉ tokens.children a) (hne : u ≠ t) (hu : after.isCancelled u = true) :
    tokens.isCancelled u = true := by
  rcases (hc.isCancelled u).mp hu with ⟨hunder, -⟩ | hold
  · exact absurd (eq_of_mem_under hf hlone hunder) hne
  · exact hold

/-- What is cancelled under a token that is not the operation's own takes at most the operation's
token along, and that only with the signal. -/
theorem Errand.Sound.of_mem_under {e : Errand} (h : e.Sound made tokens clock)
    (hf : tokens.Forest) {t u : Token} (ht : t ∉ e.tokens) (hu : u ∈ e.tokens)
    (hunder : u ∈ tokens.under t) :
    u = e.interrupt.token ∧ ∃ s ∈ e.signal, s ∈ tokens.under t := by
  rcases Tokens.eq_or_mem_row_of_mem_under hf hunder with rfl | ⟨a, ha, hrow⟩
  · exact absurd hu ht
  · have hchild := Tokens.mem_children_of_mem_row hrow
    rcases Errand.mem_tokens.mp hu with rfl | rfl | hended
    · exact ⟨rfl, a, h.parent a hchild, ha⟩
    · exact absurd hchild (h.lone a).1
    · exact absurd hchild ((h.lone a).2 u hended)

theorem Errand.Sound.cut {e : Errand} (h : e.Sound made tokens clock) (hf : tokens.Forest)
    (hrange : ∀ t ∈ e.tokens, made ≤ t ∧ t < tokens.count) {t : Token} (ht : t ∉ e.tokens)
    (hc : Cut tokens t after) : e.Sound made after clock := by
  have hexpired : after.isCancelled e.interrupt.expired = true →
      tokens.isCancelled e.interrupt.expired = true :=
    hc.lone hf (fun a => (h.lone a).1) fun heq =>
      ht (heq ▸ Errand.mem_tokens.mpr (Or.inr (Or.inl rfl)))
  refine ⟨h.distinct, h.signal, h.limit, fun hx => h.expired (hexpired hx), ?_, ?_, ?_, ?_⟩
  · intro hx
    rcases (hc.isCancelled _).mp hx with ⟨hunder, -⟩ | hold
    · obtain ⟨-, s, hs, hsunder⟩ :=
        h.of_mem_under hf ht (Errand.mem_tokens.mpr (Or.inl rfl)) hunder
      have hlt : s < tokens.count := Nat.lt_trans (h.signal s hs)
        (Nat.lt_of_le_of_lt (hrange _ (Errand.mem_tokens.mpr (Or.inl rfl))).1
          (hrange _ (Errand.mem_tokens.mpr (Or.inl rfl))).2)
      exact Or.inr ⟨s, hs, (hc.isCancelled s).mpr (Or.inl ⟨hsunder, hlt⟩)⟩
    · refine (h.token hold).imp ?_ ?_
      · exact fun hx => (hc.isCancelled _).mpr (Or.inr hx)
      · exact fun ⟨s, hs, hcs⟩ => ⟨s, hs, (hc.isCancelled s).mpr (Or.inr hcs)⟩
  · intro u hu
    have hne : u ≠ t := fun heq => ht (heq ▸ Errand.mem_tokens.mpr (Or.inr (Or.inr hu)))
    exact Bool.eq_false_iff.mpr fun hx =>
      Bool.eq_false_iff.mp (h.ended u hu) (hc.lone hf (fun a => (h.lone a).2 u hu) hne hx)
  · intro a ha
    rw [hc.children] at ha
    exact h.parent a ha
  · intro a
    rw [hc.children]
    exact h.lone a

namespace Errands

/-- Cancelling a token that belongs to no operation leaves the operations as they should be. -/
theorem cut (h : Errands made tokens clock running timed) (hf : tokens.Forest)
    (ht : ∀ e ∈ running, t ∉ e.tokens) (hc : Cut tokens t after) :
    Errands made after clock running timed := by
  refine ⟨?_, h.single, ?_, h.apart, ?_⟩
  · intro e he
    exact (h.sound e he).cut hf (h.range e (Multiset.mem_add.mpr (Or.inl he))) (ht e he) hc
  · intro e he u hu
    rw [hc.count]
    exact h.range e he u hu
  · intro e he hd
    exact (h.timed e he hd).imp_left fun hx => (hc.isCancelled _).mpr (Or.inr hx)

/-- A token from before belongs to no operation. -/
theorem outside_notMem (h : Errands made tokens clock running timed) {t : Token} (ht : t < made) :
    ∀ e ∈ running, t ∉ e.tokens := fun e he hmem =>
  absurd (h.range e (Multiset.mem_add.mpr (Or.inl he)) t hmem).1 (Nat.not_le_of_lt ht)

/-- A token that stands under one made since belongs to no operation. -/
theorem child_notMem (h : Errands made tokens clock running timed) {a t : Token} (ha : made ≤ a)
    (hchild : t ∈ tokens.children a) : ∀ e ∈ running, t ∉ e.tokens := by
  intro e he hmem
  rcases Errand.mem_tokens.mp hmem with rfl | rfl | hended
  · exact absurd ((h.sound e he).signal a ((h.sound e he).parent a hchild)) (Nat.not_lt_of_le ha)
  · exact ((h.sound e he).lone a).1 hchild
  · exact ((h.sound e he).lone a).2 t hended hchild

/-- The deadline of an operation: first the token that says so is cancelled, then the operation's. -/
theorem fire {mid : Tokens} {e : Errand} (h : Errands made tokens clock running (e ::ₘ timed))
    (hf : tokens.Forest) (hf' : mid.Forest)
    (hlimit : e.interrupt.deadline.any (· ≤ clock) = true)
    (hc : Cut tokens e.interrupt.expired mid) (hc' : Cut mid e.interrupt.token after) :
    Errands made after clock running timed := by
  have htoken : e.interrupt.token ∈ e.tokens := Errand.mem_tokens.mpr (Or.inl rfl)
  have hexpired : e.interrupt.expired ∈ e.tokens := Errand.mem_tokens.mpr (Or.inr (Or.inl rfl))
  have hmem : e ∈ running + e ::ₘ timed := by simp
  have hrange := h.range e hmem
  have hcancelled : mid.isCancelled e.interrupt.expired = true :=
    (hc.isCancelled _).mpr (Or.inl ⟨Tokens.self_mem_under hf _, (hrange _ hexpired).2⟩)
  have hgone : after.isCancelled e.interrupt.token = true :=
    (hc'.isCancelled _).mpr (Or.inl ⟨Tokens.self_mem_under hf' _, by
      rw [hc.count]; exact (hrange _ htoken).2⟩)
  have hkept : ∀ u, mid.isCancelled u = true → after.isCancelled u = true := fun u hu =>
    (hc'.isCancelled u).mpr (Or.inr hu)
  refine ⟨?_, h.single, ?_, ?_, ?_⟩
  · intro e' he'
    have hmem' : e' ∈ running + e ::ₘ timed := Multiset.mem_add.mpr (Or.inl he')
    have hs := h.sound e' he'
    have hr' : ∀ t ∈ e'.tokens, made ≤ t ∧ t < mid.count := by
      rw [hc.count]
      exact h.range e' hmem'
    rcases h.apart e hmem e' hmem' with rfl | hdisj
    · -- Its own tokens: the time is over, and that is what they say.
      have hover : 0 < e.interrupt.timeout ∧ e.began + e.interrupt.timeout ≤ clock := by
        rcases hs.limit with ⟨-, hnone⟩ | ⟨hpos, hsome, -⟩
        · rw [hnone] at hlimit
          exact absurd hlimit (by simp)
        · rw [hsome] at hlimit
          exact ⟨hpos, by simpa using hlimit⟩
      refine ⟨hs.distinct, hs.signal, hs.limit, fun _ => hover, fun _ => Or.inl (hkept _ hcancelled),
        ?_, ?_, ?_⟩
      · intro u hu
        have hlone : ∀ a, u ∉ tokens.children a := fun a => (hs.lone a).2 u hu
        have hlone' : ∀ a, u ∉ mid.children a := fun a => by rw [hc.children]; exact hlone a
        have hdistinct := hs.distinct
        rw [Errand.tokens, hu] at hdistinct
        simp only [Option.toList_some, List.nodup_cons, List.mem_cons, List.not_mem_nil, or_false,
          not_or] at hdistinct
        refine Bool.eq_false_iff.mpr fun hx => Bool.eq_false_iff.mp (hs.ended u hu) ?_
        exact hc.lone hf hlone (Ne.symm hdistinct.2.1)
          (hc'.lone hf' hlone' (Ne.symm hdistinct.1.2) hx)
      · intro a ha
        rw [hc'.children, hc.children] at ha
        exact hs.parent a ha
      · intro a
        rw [hc'.children, hc.children]
        exact hs.lone a
    · refine (hs.cut hf (h.range e' hmem') (hdisj _ hexpired) hc).cut hf' hr' (hdisj _ htoken) hc'
  · intro e' he' t ht
    rw [hc'.count, hc.count]
    refine h.range e' ?_ t ht
    simp only [Multiset.mem_add, Multiset.mem_cons] at he' ⊢
    tauto
  · intro e₁ he₁ e₂ he₂
    refine h.apart e₁ ?_ e₂ ?_
    · simp only [Multiset.mem_add, Multiset.mem_cons] at he₁ ⊢
      tauto
    · simp only [Multiset.mem_add, Multiset.mem_cons] at he₂ ⊢
      tauto
  · intro e' he' hd
    rcases h.timed e' he' hd with hx | hin
    · exact Or.inl (hkept _ ((hc.isCancelled _).mpr (Or.inr hx)))
    · rcases Multiset.mem_cons.mp hin with rfl | hin
      · exact Or.inl hgone
      · exact Or.inr hin

end Errands

/-! ### Making and letting go of tokens -/

theorem isCancelled_make_of_isCancelled (parent : Option Token) {u : Token}
    (h : tokens.isCancelled u = true) : (tokens.make parent).2.isCancelled u = true := by
  rw [Tokens.isCancelled_make, if_neg (Nat.ne_of_lt (Tokens.lt_count_of_isCancelled h))]
  exact h

theorem isCancelled_of_make {parent : Option Token} {u : Token} (hu : u < tokens.count)
    (h : (tokens.make parent).2.isCancelled u = true) : tokens.isCancelled u = true := by
  rwa [Tokens.isCancelled_make, if_neg (Nat.ne_of_lt hu)] at h

theorem mem_children_of_make {parent : Option Token} {a u : Token} (hu : u < tokens.count)
    (h : u ∈ (tokens.make parent).2.children a) : u ∈ tokens.children a := by
  rw [Tokens.children_make] at h
  split at h
  · rcases List.mem_append.mp h with h | h
    · exact h
    · exact absurd (List.mem_singleton.mp h) (Nat.ne_of_lt hu)
  · exact h

theorem Errand.Sound.make {e : Errand} (h : e.Sound made tokens clock)
    (hrange : ∀ t ∈ e.tokens, t < tokens.count) (parent : Option Token) :
    e.Sound made (tokens.make parent).2 clock := by
  have htoken := hrange _ (Errand.mem_tokens.mpr (Or.inl rfl))
  have hexpired := hrange _ (Errand.mem_tokens.mpr (Or.inr (Or.inl rfl)))
  have hended : ∀ t ∈ e.ended, t < tokens.count := fun t ht =>
    hrange t (Errand.mem_tokens.mpr (Or.inr (Or.inr ht)))
  refine ⟨h.distinct, h.signal, h.limit, ?_, ?_, ?_, ?_, ?_⟩
  · exact fun hx => h.expired (isCancelled_of_make hexpired hx)
  · intro hx
    refine (h.token (isCancelled_of_make htoken hx)).imp (isCancelled_make_of_isCancelled _) ?_
    exact fun ⟨s, hs, hc⟩ => ⟨s, hs, isCancelled_make_of_isCancelled _ hc⟩
  · intro t ht
    refine Bool.eq_false_iff.mpr fun hx => ?_
    exact Bool.eq_false_iff.mp (h.ended t ht) (isCancelled_of_make (hended t ht) hx)
  · exact fun a ha => h.parent a (mem_children_of_make htoken ha)
  · intro a
    refine ⟨fun ha => (h.lone a).1 (mem_children_of_make hexpired ha), ?_⟩
    exact fun t ht ha => (h.lone a).2 t ht (mem_children_of_make (hended t ht) ha)

theorem Errand.Sound.discard {e : Errand} (h : e.Sound made tokens clock) (hf : tokens.Forest)
    (hrow : tokens.row t = []) : e.Sound made (tokens.discard t) clock := by
  have hsub : ∀ {a u}, u ∈ (tokens.discard t).children a → u ∈ tokens.children a := fun hu =>
    ((hf.mem_children_discard hrow).mp hu).1
  refine ⟨h.distinct, h.signal, h.limit, ?_, ?_, ?_, fun a ha => h.parent a (hsub ha), ?_⟩
  · rw [Tokens.isCancelled_discard]
    exact h.expired
  · simp only [Tokens.isCancelled_discard]
    exact h.token
  · simp only [Tokens.isCancelled_discard]
    exact h.ended
  · exact fun a => ⟨fun ha => (h.lone a).1 (hsub ha), fun u hu ha => (h.lone a).2 u hu (hsub ha)⟩

/-- The tokens of an operation without a time limit. -/
theorem Errand.Sound.begin (hf : tokens.Forest) {e : Errand}
    (htoken : e.interrupt.token = tokens.count)
    (hexpired : e.interrupt.expired = tokens.count + 1) (hended : e.ended = none)
    (hsignal : ∀ s ∈ e.signal, s < made)
    (hlimit : (e.interrupt.timeout = 0 ∧ e.interrupt.deadline = none) ∨
      (0 < e.interrupt.timeout ∧ e.interrupt.deadline = some (e.began + e.interrupt.timeout) ∧
        clock ≤ e.began + e.interrupt.timeout)) :
    e.Sound made ((tokens.make e.signal).2.make none).2 clock := by
  have hcount : (tokens.make e.signal).2.count = tokens.count + 1 := Tokens.count_make _ _
  have hlt : tokens.count < (tokens.make e.signal).2.count := by omega
  have hnew : ∀ a u, tokens.count ≤ u → u ∉ tokens.children a := fun a u hu hc =>
    absurd (hf.made a u hc) (Nat.not_lt_of_le hu)
  refine ⟨?_, hsignal, hlimit, ?_, ?_, ?_, ?_, ?_⟩
  · simp [Errand.tokens, htoken, hexpired, hended]
  · intro hx
    rw [hexpired, Tokens.isCancelled_make, if_pos hcount.symm] at hx
    exact absurd hx (by simp)
  · intro hx
    rw [htoken] at hx
    have hx := isCancelled_of_make hlt hx
    rw [Tokens.isCancelled_make, if_pos rfl, Option.any_eq_true] at hx
    obtain ⟨s, hs, hc⟩ := hx
    exact Or.inr ⟨s, hs, isCancelled_make_of_isCancelled _ (isCancelled_make_of_isCancelled _ hc)⟩
  · intro t ht
    rw [hended] at ht
    exact absurd ht (by simp)
  · intro a ha
    rw [htoken] at ha
    have ha := mem_children_of_make hlt ha
    rw [Tokens.children_make] at ha
    split at ha
    · rename_i hp
      exact hp.1
    · exact absurd ha (hnew a _ (Nat.le_refl _))
  · intro a
    refine ⟨?_, fun t ht => absurd (hended ▸ ht) (by simp)⟩
    rw [hexpired]
    intro ha
    rw [Tokens.children_make, if_neg (by simp), Tokens.children_make] at ha
    split at ha
    · rcases List.mem_append.mp ha with ha | ha
      · exact hnew a _ (Nat.le_succ _) ha
      · exact absurd (List.mem_singleton.mp ha) (Nat.succ_ne_self _)
    · exact hnew a _ (Nat.le_succ _) ha

/-- With a time limit there is one token more, which says that the operation has ended. -/
theorem Errand.Sound.limited {e : Errand} (hf : tokens.Forest)
    (h : ({ e with ended := none } : Errand).Sound made tokens clock)
    (hrange : ∀ t ∈ ({ e with ended := none } : Errand).tokens, t < tokens.count)
    (hended : e.ended = some tokens.count) : e.Sound made (tokens.make none).2 clock := by
  have hmake := h.make hrange none
  have htoken : e.interrupt.token < tokens.count := hrange _ (Errand.mem_tokens.mpr (Or.inl rfl))
  have hexpired : e.interrupt.expired < tokens.count :=
    hrange _ (Errand.mem_tokens.mpr (Or.inr (Or.inl rfl)))
  refine ⟨?_, hmake.signal, hmake.limit, hmake.expired, hmake.token, ?_, hmake.parent, ?_⟩
  · have hdistinct := h.distinct
    simp only [Errand.tokens, hended, Option.toList_none, Option.toList_some, List.nodup_cons,
      List.mem_cons, List.not_mem_nil, or_false, not_false_eq_true, List.nodup_nil, and_true,
      not_or] at hdistinct ⊢
    exact ⟨⟨hdistinct, Nat.ne_of_lt htoken⟩, Nat.ne_of_lt hexpired⟩
  · intro t ht
    obtain rfl : tokens.count = t := Option.some.inj (hended.symm.trans ht)
    rw [Tokens.isCancelled_make, if_pos rfl]
    rfl
  · intro a
    refine ⟨(hmake.lone a).1, fun t ht ha => ?_⟩
    obtain rfl : tokens.count = t := Option.some.inj (hended.symm.trans ht)
    rw [Tokens.children_make, if_neg (by simp)] at ha
    exact Nat.lt_irrefl _ (hf.made a _ ha)

namespace Errands

theorem make (h : Errands made tokens clock running timed) (parent : Option Token) :
    Errands made (tokens.make parent).2 clock running timed := by
  refine ⟨?_, h.single, ?_, h.apart, ?_⟩
  · exact fun e he => (h.sound e he).make
      (fun t ht => (h.range e (Multiset.mem_add.mpr (Or.inl he)) t ht).2) parent
  · intro e he t ht
    rw [Tokens.count_make]
    exact ⟨(h.range e he t ht).1, Nat.lt_succ_of_lt (h.range e he t ht).2⟩
  · exact fun e he hd => (h.timed e he hd).imp_left (isCancelled_make_of_isCancelled parent)

theorem discard (h : Errands made tokens clock running timed) (hf : tokens.Forest)
    (hrow : tokens.row t = []) : Errands made (tokens.discard t) clock running timed := by
  refine ⟨fun e he => (h.sound e he).discard hf hrow, h.single, ?_, h.apart, ?_⟩
  · rw [Tokens.count_discard]
    exact h.range
  · simp only [Tokens.isCancelled_discard]
    exact h.timed

/-- An operation has ended. -/
theorem finish {e : Errand} (h : Errands made tokens clock (e ::ₘ running) timed) :
    Errands made tokens clock running timed := by
  have hmem : ∀ {e'}, e' ∈ running + timed → e' ∈ e ::ₘ running + timed := fun he => by
    rw [Multiset.cons_add]
    exact Multiset.mem_cons_of_mem he
  exact ⟨fun e' he => h.sound e' (Multiset.mem_cons_of_mem he), (Multiset.nodup_cons.mp h.single).2,
    fun e' he => h.range e' (hmem he), fun e₁ h₁ e₂ h₂ => h.apart e₁ (hmem h₁) e₂ (hmem h₂),
    fun e' he => h.timed e' (Multiset.mem_cons_of_mem he)⟩

/-- A deadline is not waited for any more once the operation was cancelled or has ended. -/
theorem leave {e : Errand} (h : Errands made tokens clock running (e ::ₘ timed))
    (hover : tokens.isCancelled e.interrupt.token = true ∨
      ∃ t ∈ e.ended, tokens.isCancelled t = true) :
    Errands made tokens clock running timed := by
  have hmem : ∀ {e'}, e' ∈ running + timed → e' ∈ running + e ::ₘ timed := fun he => by
    rw [Multiset.add_cons]
    exact Multiset.mem_cons_of_mem he
  refine ⟨h.sound, h.single, fun e' he => h.range e' (hmem he),
    fun e₁ h₁ e₂ h₂ => h.apart e₁ (hmem h₁) e₂ (hmem h₂), ?_⟩
  intro e' he hd
  rcases h.timed e' he hd with hx | hin
  · exact Or.inl hx
  · rcases Multiset.mem_cons.mp hin with rfl | hin
    · rcases hover with hx | ⟨t, ht, hx⟩
      · exact Or.inl hx
      · exact absurd hx (by rw [(h.sound e' he).ended t ht]; exact Bool.false_ne_true)
    · exact Or.inr hin

/-- An operation starts, with somebody who waits for its deadline if it has one. -/
theorem start {e : Errand} {timed' : Multiset Errand}
    (h : Errands made tokens clock running timed) (hsound : e.Sound made tokens clock)
    (hrange : ∀ t ∈ e.tokens, made ≤ t ∧ t < tokens.count)
    (hfresh : ∀ e' ∈ running + timed, ∀ t ∈ e'.tokens, t ∉ e.tokens)
    (htimed : timed' = timed ∧ e.interrupt.deadline = none ∨ timed' = e ::ₘ timed) :
    Errands made tokens clock (e ::ₘ running) timed' := by
  have hmem : ∀ {e'}, e' ∈ e ::ₘ running + timed' → e' = e ∨ e' ∈ running + timed := by
    intro e' he
    simp only [Multiset.mem_add, Multiset.mem_cons] at he ⊢
    rcases htimed with ⟨rfl, -⟩ | rfl
    · tauto
    · simp only [Multiset.mem_cons] at he
      tauto
  have htoken : e.interrupt.token ∈ e.tokens := Errand.mem_tokens.mpr (Or.inl rfl)
  refine ⟨?_, ?_, ?_, ?_, ?_⟩
  · intro e' he
    rcases Multiset.mem_cons.mp he with rfl | he
    · exact hsound
    · exact h.sound e' he
  · refine Multiset.nodup_cons.mpr ⟨fun hc => ?_, h.single⟩
    exact hfresh e (Multiset.mem_add.mpr (Or.inl hc)) _ htoken htoken
  · intro e' he
    rcases hmem he with rfl | he
    · exact hrange
    · exact h.range e' he
  · intro e₁ h₁ e₂ h₂
    rcases hmem h₁ with heq₁ | hold₁ <;> rcases hmem h₂ with heq₂ | hold₂
    · exact Or.inl (heq₁.trans heq₂.symm)
    · exact Or.inr fun t ht hc => hfresh e₂ hold₂ t hc (heq₁ ▸ ht)
    · exact Or.inr fun t ht hc => hfresh e₁ hold₁ t ht (heq₂ ▸ hc)
    · exact h.apart e₁ hold₁ e₂ hold₂
  · intro e' he hd
    rcases Multiset.mem_cons.mp he with rfl | he
    · rcases htimed with ⟨-, hnone⟩ | rfl
      · rw [hnone] at hd
        exact absurd hd (by simp)
      · exact Or.inr (Multiset.mem_cons_self _ _)
    · refine (h.timed e' he hd).imp_right ?_
      rcases htimed with ⟨rfl, -⟩ | rfl
      · exact id
      · exact Multiset.mem_cons_of_mem

/-- Time passes, but not over the deadline of an operation under way. -/
theorem wait {time : Nat} (h : Errands made tokens clock running timed) (hle : clock ≤ time)
    (hlimit : ∀ e ∈ running, 0 < e.interrupt.timeout → time ≤ e.began + e.interrupt.timeout) :
    Errands made tokens time running timed := by
  refine ⟨?_, h.single, h.range, h.apart, h.timed⟩
  intro e he
  have hs := h.sound e he
  refine ⟨hs.distinct, hs.signal, ?_, ?_, hs.token, hs.ended, hs.parent, hs.lone⟩
  · rcases hs.limit with hl | ⟨hpos, hd, -⟩
    · exact Or.inl hl
    · exact Or.inr ⟨hpos, hd, hlimit e he hpos⟩
  · exact fun hx => ⟨(hs.expired hx).1, Nat.le_trans (hs.expired hx).2 hle⟩

end Errands

end Wayfind.Keeping
