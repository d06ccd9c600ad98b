/-
What callers do with a locator, whatever page side it is on.

Every operation that a caller may start keeps the discipline, hands a handle on only if it
is asked for one, and otherwise leaves nothing (`goes_terminal`).
-/
import Wayfind.Proofs.Keeping.Operating

namespace Wayfind.Keeping

open Activity (Token Timeline)
open PageSide (Action releaseDuty)

variable {B : PageSide}

/-- What a caller may have done with a locator. -/
inductive Terminal : Type 1 where
  | waitHandle
  | waitValue
  | waitAs {α : Type} (reader : Json.Reader α)
  | wait
  | click (options : ClickOptions)
  | hover
  | scroll (top left : Option Float)
  | fill (value : String)

namespace Terminal

/-- The operation hands its handle on. -/
def hands : Terminal → Bool
  | waitHandle => true
  | _ => false

/-- The operation reads a value from the page at its end. -/
def reads : Terminal → Bool
  | waitValue | waitAs _ => true
  | _ => false

/-- The operation, with the handle that the caller is given if there is one. -/
def action (t : Terminal) (b : Browser B) (l : Locator B.Page) (signal : Option Token) :
    B.Action (Option B.Handle) :=
  match t with
  | waitHandle => do
    let handle ← l.waitHandle b signal
    return some handle
  | waitValue => do
    let _ ← l.waitValue b signal
    return none
  | waitAs reader => do
    let _ ← l.waitAs reader b signal
    return none
  | wait => do
    l.wait b signal
    return none
  | click options => do
    l.perform b (.click options) signal
    return none
  | hover => do
    l.perform b .hover signal
    return none
  | scroll top left => do
    l.perform b (.scroll top left) signal
    return none
  | fill value => do
    l.perform b (.fill value) signal
    return none

/-! ### Attempts, and what follows them -/

/-- What an operation tries again and again. -/
def operation : Terminal → Operation
  | waitHandle | waitValue | waitAs _ | wait => .find
  | click options => .click options
  | hover => .hover
  | scroll top left => .scroll top left
  | fill value => .fill value

/-- What an operation does to the element it finds, if it is to do anything. -/
def operation? : Terminal → Option Operation
  | click options => some (.click options)
  | hover => some .hover
  | scroll top left => some (.scroll top left)
  | fill value => some (.fill value)
  | waitHandle | waitValue | waitAs _ | wait => none

/-- Reads the value behind a handle, and releases the handle. -/
def readOut (b : Browser B) (handle : B.Handle) : B.Action Json := do
  let value ← ((b.realm.jsonValue handle).protect [releaseDuty handle]).attempt
  (b.realm.releaseIn handle).protect [releaseDuty handle]
  Action.ofExcept value

/-- What follows a value that was read: it may be none of those that are asked for. -/
def accept {α : Type} (reader : Json.Reader α) (doc : Json) : B.Action (Option B.Handle) :=
  match Json.Reader.ofJson? reader doc with
  | some _ => return none
  | none => throw (.serialization "a value of another type")

/-- What an operation does with what its attempts have found. -/
def conclusion (b : Browser B) : Terminal → Option B.Handle → B.Action (Option B.Handle)
  | waitHandle, some h => return some h
  | waitValue, some h => do
    let _ ← readOut b h
    return none
  | waitAs reader, some h => do accept reader (← readOut b h)
  | wait, some h => do
    b.realm.releaseIn h
    return none
  | waitHandle, none | waitValue, none | waitAs _, none | wait, none =>
    throw (.internal "Locator produced no handle")
  | _, _ => return none

/-- An operation makes its attempts, and then does something with what they have found. -/
theorem action_eq (t : Terminal) (b : Browser B) (l : Locator B.Page) (signal : Option Token) :
    t.action b l signal = l.run b t.operation signal >>= t.conclusion b := by
  cases t with
  | waitAs reader =>
    simp only [action, Locator.waitAs, Locator.waitValue, Locator.waitHandle, bind_assoc]
    refine congrArg (Bind.bind _) (funext fun r => ?_)
    cases r with
    | none => rfl
    | some handle =>
      simp only [pure_bind, conclusion, readOut, bind_assoc]
      refine congrArg (Bind.bind _) (funext fun value => congrArg (Bind.bind _) (funext fun _ => ?_))
      refine congrArg (Bind.bind _) (funext fun doc => ?_)
      unfold accept
      cases Json.Reader.ofJson? reader doc <;> rfl
  | _ =>
    simp only [action, Locator.waitHandle, Locator.waitValue, Locator.wait, Locator.perform, bind_assoc]
    refine congrArg (Bind.bind _) (funext fun r => ?_)
    cases r <;> simp only [pure_bind, conclusion, readOut, bind_assoc] <;> rfl

end Terminal

section Goes

variable {K : Activity.Backend B.signature} {b : Browser B} {C : Custody K b} {σ : Station C}
  {t : Terminal} {l : Locator B.Page} {signal : Option Token} {tl : Timeline B.signature K.World}
  {others : Multiset (Share C.Charge)}

/-- How an operation ends that was started at a time. -/
structure Ended (t : Terminal) (timeout : Nat) (signal : Option Token) (began : Nat)
    (outcome : Except Error (Option B.Handle)) (tl : Timeline B.signature K.World) : Prop where
  hands : ∀ v, outcome = .ok v → v.isSome = t.hands
  answers : t.reads = false → Answers timeout signal began tl outcome

/-- What is expected of an operation: it keeps nothing but the handle that it hands on. -/
abbrev Delivers (σ : Station C) (t : Terminal) (timeout : Nat) (signal : Option Token) (began : Nat) :
    Post C (Except Error (Option B.Handle)) := fun outcome others after =>
  σ.Holds after (.ofCharges (C.chargeIn outcome) ::ₘ others) ∧ Ended t timeout signal began outcome after

/-- An operation that hands nothing on leaves nothing. -/
theorem goes_handless {α : Type} {a : B.Action α} {timeout began : Nat} (hhands : t.hands = false)
    (ha : Goes σ (fun r others after => σ.Holds after (.ofCharges 0 ::ₘ others) ∧
        (t.reads = false → Answers timeout signal began after r)) a.outcome others tl) :
    Goes σ (Delivers σ t timeout signal began) (do
        let _ ← a
        return none : B.Action (Option B.Handle)).outcome others tl := by
  refine goes_andThen (ha.mono ?_)
  rintro r others after ⟨hb, hanswers⟩
  cases r with
  | ok v =>
    refine ⟨hb, fun w hw => ?_, hanswers⟩
    rw [← Except.ok.inj hw, hhands]
    rfl
  | error err => exact ⟨hb, nofun, hanswers⟩

/-- What an operation leaves, and how it ends. -/
theorem goes_terminal (hrole : σ.role = .foreground) (haround : σ.around = [])
    (hsignal : ∀ s ∈ signal, s < σ.made) (t : Terminal) (hb : σ.Holds tl others) :
    Goes σ (Delivers σ t l.options.timeout signal tl.clock) (t.action b l signal).outcome others tl := by
  have hact : ∀ t : Terminal, ∀ op, op ≠ .find → Goes σ (fun r others after =>
      σ.Holds after (.ofCharges 0 ::ₘ others) ∧
        (t.reads = false → Answers l.options.timeout signal tl.clock after r))
      (l.perform b op signal).outcome others tl := fun t op hop =>
    (goes_act hrole haround hsignal hop hb).mono fun _ _ _ h => ⟨h.1, fun _ => h.2⟩
  cases t with
  | waitHandle =>
    refine goes_andThen ((goes_waitHandle hrole haround hsignal hb).mono ?_)
    rintro r others after ⟨hb, hanswers⟩
    cases r with
    | ok handle =>
      refine ⟨hb, fun w hw => ?_, fun _ => hanswers⟩
      rw [← Except.ok.inj hw]
      rfl
    | error err => exact ⟨hb, nofun, fun _ => hanswers⟩
  | waitValue =>
    refine goes_handless rfl ((spec_waitValue hrole haround hsignal tl others
      (Balanced.cons_nothing.mpr hb)).mono ?_)
    rintro r others after ⟨y, rfl, hb⟩
    exact ⟨hb, nofun⟩
  | waitAs reader =>
    refine goes_handless rfl ((spec_waitAs hrole haround hsignal tl others
      (Balanced.cons_nothing.mpr hb)).mono ?_)
    rintro r others after ⟨y, rfl, hb⟩
    exact ⟨hb, nofun⟩
  | wait =>
    refine goes_handless rfl ((goes_await hrole haround hsignal hb).mono ?_)
    exact fun r others after h => ⟨h.1, fun _ => h.2⟩
  | click options => exact goes_handless rfl (hact (.click options) _ nofun)
  | hover => exact goes_handless rfl (hact .hover _ nofun)
  | scroll top left => exact goes_handless rfl (hact (.scroll top left) _ nofun)
  | fill value => exact goes_handless rfl (hact (.fill value) _ nofun)

end Goes

/-! ### Calls -/

/-- The signal that callers may share. -/
def signal : Token := 0

/-- An operation that somebody starts. -/
structure Call (B : PageSide) where
  locator : Locator B.Page
  terminal : Terminal
  /-- The signal goes with it. -/
  signalled : Bool

namespace Call

/-- The signal of a call. -/
def signal (c : Call B) : Option Token := if c.signalled then some Keeping.signal else none

/-- The time a call has, in milliseconds; zero for no limit. -/
def timeout (c : Call B) : Nat := c.locator.options.timeout

/-- What a call does. -/
def activity (b : Browser B) (c : Call B) : B.Task (Except Error (Option B.Handle)) :=
  (c.terminal.action b c.locator c.signal).outcome

theorem signal_lt (c : Call B) : ∀ s ∈ c.signal, s < 1 := by
  intro s hs
  unfold signal at hs
  split at hs
  · rw [← Option.some.inj hs]
    exact Nat.one_pos
  · exact absurd hs (by simp)

end Call

end Wayfind.Keeping
