/-
Whoever looks for an element asks the page only what the browser asks.

Locators add nothing to the questions of the browser they work with: an attempt to find a
handle, a branch of a race and whatever else is forked on the way are innocent when the
browser is.
-/
import Wayfind.Locator.Operation
import Wayfind.Proofs.Page.Asking

namespace Wayfind

open Activity (Asks Inbox Innocent Token asks_andThen asks_attempt asks_ofExcept asks_perform asks_sleep)
open PageSide (Action releaseDuty)

variable {B : PageSide} {mild : B.Query → Prop} {α β : Type}

/-- The action asks the page only what is mild. -/
abbrev PageSide.Action.Innocent (mild : B.Query → Prop) (a : B.Action α) : Prop :=
  Activity.Innocent (S := B.signature) mild a.outcome

/-- What locators do with the browser is innocent. -/
structure Browser.Innocent (mild : B.Query → Prop) (b : Browser B) : Prop where
  dispose : ∀ h, (b.realm.dispose h).Innocent mild
  evaluateHandle : ∀ h script args, (b.realm.evaluateHandle h script args).Innocent mild
  waitFor : ∀ script wait bindings args, (b.realm.waitFor script wait bindings args).Innocent mild
  waitForSelector : ∀ page selector wait, (b.pages.waitForSelector page selector wait).Innocent mild
  waitForFunction : ∀ page script wait args, (b.pages.waitForFunction page script wait args).Innocent mild

/-! ### Interrupts -/

/-- Whoever fulfils duties asks the page nothing. -/
theorem innocent_request (duties : List (Activity.Duty B.signature)) :
    ∀ d ∈ duties, ∀ q, d.request = .query q → mild q := by
  intro d _ q hq
  cases d <;> exact absurd hq nofun

theorem innocent_unlessCancelled (t : Token) {halt p : B.Task α}
    (hhalt : Innocent (S := B.signature) mild halt) (hp : Innocent (S := B.signature) mild p) :
    Innocent (S := B.signature) mild (Activity.unlessCancelled t halt p) := by
  refine (asks_perform nofun).bind fun cancelled => ?_
  split
  · exact hhalt
  · exact hp.guard hhalt t

theorem innocent_error (i : Interrupt) : (i.error : B.Action Error).Innocent mild := by
  refine asks_andThen ((asks_perform nofun).bind fun _ => trivial) fun late => ?_
  split <;> trivial

theorem innocent_fail (i : Interrupt) : (i.fail : B.Action α).Innocent mild :=
  asks_andThen (innocent_error i) fun _ => trivial

theorem innocent_guard (i : Interrupt) {a : B.Action α} (ha : a.Innocent mild) :
    (i.guard a).Innocent mild :=
  innocent_unlessCancelled i.token (innocent_fail i) ha

theorem innocent_protect {a : B.Action α} (ha : a.Innocent mild)
    (duties : List (Activity.Duty B.signature)) : (a.protect duties).Innocent mild :=
  Asks.protect ha (innocent_request duties)

theorem innocent_remaining (i : Interrupt) : (i.remaining : B.Action Nat).Innocent mild := by
  unfold Interrupt.remaining
  split
  · trivial
  · exact asks_andThen ((asks_perform nofun).bind fun _ => trivial) fun _ => trivial

theorem innocent_child (i : Interrupt) : (i.child : B.Action Interrupt).Innocent mild :=
  asks_andThen ((asks_perform nofun).bind fun _ => trivial) fun _ => trivial

theorem innocent_expire (i : Interrupt) (ended : Token) :
    Innocent (S := B.signature) mild (i.expire ended : B.Task Unit) := by
  unfold Interrupt.expire
  split
  · trivial
  · refine Asks.bind (innocent_unlessCancelled ended trivial (innocent_unlessCancelled i.token trivial
      ((asks_perform nofun).bind fun _ => trivial))) fun (reached : Bool) => ?_
    cases reached with
    | true => exact (asks_perform nofun).bind fun _ => asks_perform nofun
    | false => trivial

/-! ### Races -/

theorem innocent_forkBranches (race : Interrupt) (inbox : Inbox) (branches : List (Locator B.Page)) :
    (Race.forkBranches race inbox branches).Innocent mild := by
  induction branches with
  | nil => trivial
  | cons l rest ih =>
    refine asks_andThen (innocent_child race) fun branch => ?_
    exact asks_andThen ((asks_perform nofun).bind fun _ => trivial) fun _ => ih

theorem innocent_firstHandle (inbox : Inbox) (count : Nat) (last : Option Error) :
    (Race.firstHandle (B := B) inbox count last).Innocent mild := by
  induction count generalizing last with
  | zero => trivial
  | succ count ih =>
    refine asks_andThen ((asks_perform nofun).bind fun _ => trivial) fun (m : Except Error B.Handle) => ?_
    cases m with
    | ok handle => trivial
    | error e => exact ih (some e)

theorem innocent_race (branches : List (Locator B.Page)) (i : Interrupt) :
    (Race.run branches i).Innocent mild := by
  unfold Race.run
  split
  · trivial
  · refine asks_andThen (innocent_child i) fun race => ?_
    refine asks_andThen ((asks_perform nofun).bind fun _ => trivial) fun inbox => ?_
    refine asks_andThen (innocent_forkBranches race inbox branches) fun _ => ?_
    refine asks_andThen (innocent_protect (innocent_firstHandle inbox _ _) _) fun winner => ?_
    refine asks_andThen ((asks_perform nofun).bind fun _ => trivial) fun _ => ?_
    cases winner with
    | ok found => exact asks_andThen ((asks_perform nofun).bind fun _ => trivial) fun _ => trivial
    | error last => trivial

/-! ### Locators -/

namespace Browser.Innocent

variable {b : Browser B} (hb : b.Innocent mild)
include hb

theorem release (h : B.Handle) : Activity.Innocent (S := B.signature) mild (b.realm.release h) :=
  Asks.bind (hb.dispose h) fun _ => trivial

theorem releaseIn (h : B.Handle) : (b.realm.releaseIn h).Innocent mild :=
  (hb.release h).bind fun _ => trivial

/-- To find a handle is innocent. -/
theorem resolve (i : Interrupt) : ∀ l : Locator B.Page, (l.resolve b i).Innocent mild
  | .node o page selector => by
    unfold Locator.resolve
    refine asks_andThen (innocent_remaining i) fun ms => ?_
    refine asks_andThen (innocent_guard i (hb.waitForSelector page selector _)) fun found => ?_
    cases found <;> trivial
  | .function o page script => by
    unfold Locator.resolve
    refine asks_andThen (innocent_remaining i) fun ms => ?_
    exact innocent_guard i (hb.waitForFunction page script _ [])
  | .filtered o inner predicate => by
    unfold Locator.resolve
    refine asks_andThen (resolve i inner) fun handle => ?_
    refine asks_attempt (innocent_protect (innocent_guard i (hb.waitFor predicate _ [] _)) _) fun held => ?_
    cases held with
    | ok result => exact asks_andThen (innocent_protect (hb.releaseIn result) _) fun _ => trivial
    | error e => exact asks_andThen (innocent_protect (hb.releaseIn handle) _) fun _ => trivial
  | .mapped o inner mapper => by
    unfold Locator.resolve
    refine asks_andThen (resolve i inner) fun handle => ?_
    refine asks_attempt (innocent_protect (innocent_guard i (hb.evaluateHandle handle mapper [])) _)
      fun made => ?_
    exact asks_andThen (innocent_protect (hb.releaseIn handle) _) fun _ => asks_ofExcept made
  | .race o branches => by
    unfold Locator.resolve
    exact innocent_race branches i

theorem branch (l : Locator B.Page) (i : Interrupt) (inbox : Inbox) :
    Activity.Innocent (S := B.signature) mild (l.runBranch b i inbox) := by
  refine Asks.bind (hb.resolve i l) fun found => ?_
  refine Asks.bind (asks_perform nofun) fun (accepted : Bool) => ?_
  cases found with
  | ok handle =>
    cases accepted with
    | true => exact asks_perform nofun
    | false => exact (hb.release handle).bind fun _ => asks_perform nofun
  | error e => exact asks_perform nofun

theorem drain (inbox : Inbox) (count : Nat) :
    Activity.Innocent (S := B.signature) mild (Race.drain b.realm inbox count) := by
  induction count with
  | zero => trivial
  | succ count ih =>
    refine Asks.bind (asks_perform nofun) fun (m : Except Error B.Handle) => ?_
    cases m with
    | ok handle => exact (hb.release handle).bind fun _ => ih
    | error e => exact ih

/-- Every job is innocent, if the chores of the page side are. -/
theorem job {ofChore : B.Chore → B.Task Unit}
    (hchore : ∀ c, Activity.Innocent (S := B.signature) mild (ofChore c))
    (job : Job B.Handle B.Page B.Chore) :
    Activity.Innocent (S := B.signature) mild (Job.activity b ofChore job) := by
  cases job with
  | release handle => exact hb.release handle
  | expire i ended => exact innocent_expire i ended
  | branch l i inbox => exact hb.branch l i inbox
  | drain inbox count => exact hb.drain inbox count
  | cancelAt time t => exact (asks_perform nofun).bind fun _ => asks_perform nofun
  | chore c => exact hchore c

end Browser.Innocent

end Wayfind
