/-
One operation, followed by what a view of the world shows of it.

`Abides` follows an activity with such a view; an action may besides fail.  The rules here
follow the way actions are put together, up to the attempts of a locator: an attempt that
fails leaves the view as the next one may find it, unless the operation was interrupted,
and then it ends with an error that says so.
-/
import Wayfind.Proofs.Activity.Abiding
import Wayfind.Proofs.Page.Finding

namespace Wayfind

open Activity (Abides Duty KeptBy Request Token abides_bind abides_perform abides_protect abides_sleep)
open PageSide (Action)

variable {B : PageSide} {K : Activity.Backend B.signature} {α β V : Type}

/-- The action, begun with such a view of the world and with these tokens known to be cancelled, ends as
it should, and wherever it may have to wait the view is as said. -/
def Guides (K : Activity.Backend B.signature) (view : K.World → V) (halting : V → Prop)
    (Q : Except Error α → List Token → V → Prop) (a : B.Action α) (known : List Token) (v : V) : Prop :=
  Abides (B := K) view halting Q a.outcome known v

/-- Either the action succeeds and then this is so, or it fails and then that. -/
def EndsIn (good : α → V → Prop) (bad : V → Prop) : Except Error α → List Token → V → Prop
  | .ok x, _, v => good x v
  | .error _, _, v => bad v

variable {view : K.World → V} {halting : V → Prop} {Q : Except Error β → List Token → V → Prop}
  {R : Except Error α → List Token → V → Prop} {a : B.Action α} {f : α → B.Action β}
  {known : List Token} {v : V}

/-! ### Actions -/

theorem Guides.mono {R' : Except Error α → List Token → V → Prop} (ha : Guides K view halting R a known v)
    (h : ∀ r known v, R r known v → R' r known v) : Guides K view halting R' a known v :=
  Abides.mono ha h

theorem Guides.relax {outer : V → Prop} (ha : Guides K view halting R a known v)
    (houter : ∀ v, halting v → outer v) : Guides K view outer R a known v :=
  Abides.relax ha houter

theorem Guides.andThen (ha : Guides K view halting R a known v)
    (hok : ∀ x known v, R (.ok x) known v → Guides K view halting Q (f x) known v)
    (herror : ∀ e known v, R (.error e) known v → Q (.error e) known v) :
    Guides K view halting Q (a >>= f) known v := by
  unfold Guides
  rw [outcome_bind]
  refine abides_bind.mpr (Abides.mono ha fun r known v hr => ?_)
  cases r with
  | ok x => exact hok x known v hr
  | error e => exact herror e known v hr

/-- An action whose failure is looked at. -/
theorem Guides.attempt {f : Except Error α → B.Action β} (ha : Guides K view halting R a known v)
    (h : ∀ r known v, R r known v → Guides K view halting Q (f r) known v) :
    Guides K view halting Q (a.attempt >>= f) known v := by
  unfold Guides
  rw [outcome_attempt_bind]
  exact abides_bind.mpr (Abides.mono ha h)

theorem Guides.protect (ha : Guides K view halting R a known v) (duties : List (Duty B.signature)) :
    Guides K view halting R (a.protect duties) known v :=
  (abides_protect duties).mpr ha

theorem guides_ofExcept {r : Except Error α} (h : R r known v) :
    Guides K view halting R (Action.ofExcept r) known v := by
  unfold Guides
  rw [outcome_ofExcept]
  exact h

/-- A request that does not wait. -/
theorem guides_request {r : Request B.signature} {f : r.Answer → B.Action β} (hwaits : r.waits = false)
    (h : ∀ w a w', view w = v → r.Leads K w a w' → r.Agrees known a →
      Guides K view halting Q (f a) known (view w')) :
    Guides K view halting Q (Action.perform r >>= f) known v := by
  unfold Guides
  rw [Action.perform, outcome_lift_bind]
  exact abides_perform hwaits h

/-- A question to the page. -/
theorem guides_query {q : B.Query} {f : B.Answer q → B.Action β}
    (h : ∀ w, view w = v → Guides K view halting Q (f (K.answer q w).1) known (view (K.answer q w).2.1)) :
    Guides K view halting Q (Action.query q >>= f) known v := by
  refine guides_request (r := .query q) rfl fun w a w' hw hl _ => ?_
  obtain ⟨rfl, rfl⟩ := hl
  exact h w hw

/-- A request other than to the page. -/
theorem guides_perform {r : Request B.signature} {f : r.Answer → B.Action β} (hquery : ∀ q, r ≠ .query q)
    (hwaits : r.waits = false) (h : ∀ a, r.Agrees known a → Guides K view halting Q (f a) known v) :
    Guides K view halting Q (Action.perform r >>= f) known v := by
  refine guides_request hwaits fun w a w' hw hl ha => ?_
  have hsame : w' = w := by
    cases r with
    | query q => exact absurd rfl (hquery q)
    | _ => exact hl
  rw [hsame, hw]
  exact h a ha

theorem guides_sleep (ms : Nat) {f : Unit → B.Action β} (hv : halting v)
    (h : Guides K view halting Q (f ()) known v) :
    Guides K view halting Q (Action.sleep ms >>= f) known v := by
  unfold Guides
  rw [Action.sleep, outcome_lift_bind]
  exact abides_sleep ms hv h

/-- What asks only mild questions leaves the view as it is. -/
theorem guides_innocent {mild : B.Query → Prop} (ha : a.Innocent mild)
    (hkept : ∀ v, KeptBy K mild fun w => view w = v) (hv : halting v) :
    Guides K view halting (fun _ more u => u = v ∧ known ⊆ more) a known v :=
  Activity.Innocent.abides ha hkept hv

/-! ### Interrupts -/

/-- How an operation ends that was interrupted. -/
def Interrupt.Tells (i : Interrupt) (e : Error) : Prop :=
  e = .cancelled ∨ e = .timeout ("Timed out after waiting " ++ toString i.timeout ++ "ms")

section Interrupt

variable (i : Interrupt)

/-- To say why an operation was interrupted. -/
theorem guides_error : Guides K view halting (fun r more u => more = known ∧ u = v ∧ ∃ e, r = .ok e ∧
    i.Tells e) (i.error : B.Action Error) known v := by
  refine guides_perform nofun rfl fun (late : Bool) _ => ?_
  cases late with
  | true => exact ⟨rfl, rfl, _, rfl, .inr rfl⟩
  | false => exact ⟨rfl, rfl, _, rfl, .inl rfl⟩

theorem guides_fail (h : ∀ e, i.Tells e → R (.error e) known v) :
    Guides K view halting R (i.fail : B.Action α) known v := by
  refine (guides_error i).andThen ?_ ?_
  · rintro e _ _ ⟨rfl, rfl, e', he, htells⟩
    obtain rfl := Except.ok.inj he
    exact h e htells
  · rintro e _ _ ⟨-, -, e', he, -⟩
    exact absurd he nofun

/-- Under the operation's token an action may be dropped wherever it may have to wait. -/
theorem Guides.guard {outer : V → Prop} (ha : Guides K view halting R a known v)
    (houter : ∀ v, halting v → outer v) (hbefore : ∀ e, i.Tells e → R (.error e) known v)
    (hstopped : ∀ known v e, i.token ∈ known → halting v → i.Tells e → R (.error e) known v) :
    Guides K view outer R (i.guard a) known v := by
  refine abides_perform rfl fun w (cancelled : Bool) w' hw hl _ => ?_
  obtain rfl : w' = w := hl
  rw [hw]
  cases cancelled with
  | true => exact guides_fail i hbefore
  | false =>
    exact Abides.guard ha houter fun known v ht hv => guides_fail i fun e => hstopped known v e ht hv

/-- After a failure the operation goes on only if its token is not known to be cancelled. -/
theorem guides_interruption : Guides K view halting (fun r more u => more = known ∧ u = v ∧
      ∃ why : Option Error, r = .ok why ∧ (∀ e ∈ why, i.Tells e) ∧ (why = none → i.token ∉ known))
    (i.interruption : B.Action (Option Error)) known v := by
  refine guides_perform nofun rfl fun (cancelled : Bool) hagrees => ?_
  cases cancelled with
  | true =>
    refine (guides_error i).andThen ?_ ?_
    · rintro e _ _ ⟨rfl, rfl, e', he, htells⟩
      obtain rfl := Except.ok.inj he
      exact ⟨rfl, rfl, some e, rfl, fun _ h => Option.some.inj h ▸ htells, nofun⟩
    · rintro e _ _ ⟨-, -, e', he, -⟩
      exact absurd he nofun
  | false => exact ⟨rfl, rfl, none, rfl, nofun, fun _ hknown => absurd (hagrees hknown) nofun⟩

/-- Between two attempts nothing happens to the view. -/
theorem guides_pause (hv : halting v) : Guides K view halting (fun r _ u => u = v ∧ ∀ e, r = .error e → i.Tells e)
    (i.pause : B.Action Unit) known v := by
  have hsleep : Guides K view (· = v) (fun r _ u => u = v ∧ ∀ e, r = .error e → i.Tells e)
      (Action.sleep retryDelay : B.Action Unit) known v := by
    unfold Guides
    rw [Action.sleep, outcome_lift]
    exact abides_sleep retryDelay rfl ⟨rfl, nofun⟩
  refine hsleep.guard i (fun u hu => hu ▸ hv) ?_ ?_
  · exact fun e htells => ⟨rfl, fun _ he => Except.error.inj he ▸ htells⟩
  · exact fun known u e _ hu htells => ⟨hu, fun _ he => Except.error.inj he ▸ htells⟩

end Interrupt

/-! ### Attempts -/

section Attempts

variable {b : Browser B} {l : Locator B.Page} {op : Operation} {i : Interrupt}
  {Q : Except Error (Option B.Handle) → List Token → V → Prop}

/-- Every attempt begins with a view as the attempts before may leave it.  One that fails may leave
another view only if the operation was interrupted. -/
structure Attempted (K : Activity.Backend B.signature) (view : K.World → V) (b : Browser B)
    (l : Locator B.Page) (op : Operation) (i : Interrupt) (halting : V → Prop)
    (Q : Except Error (Option B.Handle) → List Token → V → Prop) (Begins : V → Prop)
    (Fails : List Token → V → Prop) : Prop where
  halts : ∀ {v}, Begins v → halting v
  attempt : ∀ {known v}, Begins v → Guides K view halting (fun r known v => match r with
    | .ok _ => Q r known v
    | .error _ => Fails known v) (l.attempt b op i) known v
  again : ∀ {known v}, Fails known v → i.token ∉ known → Begins v
  fails : ∀ {known v e}, Fails known v → i.Tells e → Q (.error e) known v
  paused : ∀ {known v e}, Begins v → i.Tells e → Q (.error e) known v

/-- To let go of a handle never fails. -/
theorem guides_releaseIn {mild : B.Query → Prop} {halting : V → Prop} (hb : b.Innocent mild)
    (hkept : ∀ v, KeptBy K mild fun w => view w = v) (h : B.Handle) (hv : halting v) :
    Guides K view halting (fun r more u => r = .ok () ∧ u = v ∧ known ⊆ more) (b.realm.releaseIn h) known v := by
  unfold Guides Realm.releaseIn
  rw [outcome_lift]
  refine abides_bind.mpr ((Activity.Innocent.abides (hb.release h) hkept hv).mono fun _ more u hu => ?_)
  exact ⟨rfl, hu⟩

/-- An attempt to act on an element: what it takes to find the element and to let go of it leaves the
view as it is. -/
theorem guides_attempt {mild : B.Query → Prop} (hb : b.Innocent mild)
    (hkept : ∀ v, KeptBy K mild fun w => view w = v) (hop : op ≠ .find) {I : V → Prop}
    {R : Except Error Unit → List Token → V → Prop}
    (hact : ∀ h known, Guides K view I R (Locator.act b.realm l.options h op) known v)
    (hv : halting v) (hinner : ∀ v, I v → halting v)
    (hhalts : ∀ {r known v}, R r known v → halting v)
    (hlater : ∀ {r known more v}, R r known v → known ⊆ more → R r more v)
    (hbefore : ∀ {known} e, R (.error e) known v)
    (hstopped : ∀ known v e, i.token ∈ known → I v → R (.error e) known v)
    (hok : ∀ {known v}, R (.ok ()) known v → Q (.ok none) known v)
    (herror : ∀ {known v e}, R (.error e) known v → Q (.error e) known v) :
    Guides K view halting Q (l.attempt b op i) known v := by
  refine (guides_innocent (hb.resolve i l) hkept hv).andThen ?_ ?_
  · rintro h more u ⟨hu, -⟩
    subst hu
    have hguard : Guides K view halting R (i.guard (Locator.act b.realm l.options h op)) more u :=
      (hact h more).guard i hinner (fun e _ => hbefore e) fun known v e ht hv _ => hstopped known v e ht hv
    have hrest : Guides K view halting Q (do
        let outcome ← ((i.guard (Locator.act b.realm l.options h op)).protect
          [PageSide.releaseDuty h]).attempt
        (b.realm.releaseIn h).protect [PageSide.releaseDuty h]
        Action.ofExcept outcome
        return none) more u := by
      refine (hguard.protect _).attempt fun outcome known u hr => ?_
      refine ((guides_releaseIn hb hkept h (hhalts hr)).protect _).andThen ?_ ?_
      · rintro _ later _ ⟨-, rfl, hmore⟩
        refine (guides_ofExcept (hlater hr hmore)).andThen ?_ ?_
        · exact fun _ _ _ hr => hok hr
        · exact fun _ _ _ hr => herror hr
      · exact fun e _ _ hr => absurd hr.1 nofun
    cases op with
    | find => exact absurd rfl hop
    | _ => exact hrest
  · rintro e more _ ⟨rfl, -⟩
    exact herror (hbefore e)

theorem Attempted.attempts {Begins : V → Prop} {Fails : List Token → V → Prop}
    (h : Attempted K view b l op i halting Q Begins Fails) (fuel : Nat) (hv : Begins v) :
    Guides K view halting Q (l.attempts b op i fuel) known v := by
  induction fuel generalizing known v with
  | zero => exact ⟨fun _ e => Empty.elim e, fun _ => ⟨h.halts hv, nofun⟩⟩
  | succ fuel ih =>
    refine (h.attempt hv).attempt fun r known v hr => ?_
    cases r with
    | ok result => exact hr
    | error e =>
      refine (guides_interruption i).andThen ?_ ?_
      · rintro why _ _ ⟨rfl, rfl, why', hsame, htells, hagain⟩
        obtain rfl := Except.ok.inj hsame
        cases why with
        | some e => exact h.fails hr (htells e rfl)
        | none =>
          have hbegins := h.again hr (hagain rfl)
          refine (guides_pause i (h.halts hbegins)).andThen ?_ ?_
          · rintro _ known _ ⟨rfl, -⟩
            exact ih hbegins
          · rintro e known _ ⟨rfl, htells⟩
            exact h.paused hbegins (htells e rfl)
      · rintro e _ _ ⟨-, -, why, hsame, -⟩
        exact absurd hsame nofun

end Attempts

/-- An operation with a limited time under a signal does what its body does. -/
theorem guides_within {timeout : Nat} {signal : Option Token} {body : Interrupt → B.Action α}
    (hbody : ∀ i : Interrupt, i.timeout = timeout → Guides K view halting R (body i) known v) :
    Guides K view halting R (Interrupt.within timeout signal body) known v := by
  unfold Interrupt.within
  refine guides_perform nofun rfl fun token _ => guides_perform nofun rfl fun expired _ => ?_
  split
  · exact hbody _ rfl
  · refine guides_perform nofun rfl fun now _ => guides_perform nofun rfl fun ended _ => ?_
    refine guides_perform nofun rfl fun _ _ => ?_
    refine ((hbody _ rfl).protect _).attempt fun outcome more u hr => ?_
    exact guides_perform nofun rfl fun _ _ => guides_ofExcept hr

end Wayfind
