/-
Operations on one world, one after another.

Whatever the peer answers, and whichever commands fail, every call goes to the global
object of the living context, and in one life of a context neither this nor the utility
bundle is asked for once it was given (`coherent_of_session`).

A function is called with its bindings installed whenever it is waited for, with one
exception: that the page has been told to release a result that was of no use, and told of a
dead context.  The wait passes this over and calls the function again, in the next context,
where nothing is installed (`calls_unbound`).
-/
import Wayfind.Proofs.Remote.Coherence

namespace Wayfind.Remote

open Activity (Prompt Solo Timeline Run)
open PageSide (Action)

variable {P : Peer} {patience : Nat} {source : String} {α β : Type}

/-- What can be done with a world and its handles. -/
inductive Operation where
  | call (script : String) (args : List (Argument Handle))
  | callHandle (script : String) (args : List (Argument Handle))
  | utility
  | waitFor (script : String) (wait : FunctionWait) (bindings : List (Binding Handle))
      (args : List (Argument Handle))
  | evaluate (h : Handle) (script : String) (args : List (Argument Handle))
  | evaluateHandle (h : Handle) (script : String) (args : List (Argument Handle))
  | dispose (h : Handle)

/-- The operation as an activity. -/
def Operation.activity (patience : Nat) : Operation → side.Task Unit
  | call script args => do let _ ← ((realm patience).call script args).outcome
  | callHandle script args => do let _ ← ((realm patience).callHandle script args).outcome
  | utility => do let _ ← (realm patience).utility.outcome
  | waitFor script wait bindings args => do
    let _ ← ((realm patience).waitFor script wait bindings args).outcome
  | evaluate h script args => do let _ ← ((realm patience).evaluate h script args).outcome
  | evaluateHandle h script args => do let _ ← ((realm patience).evaluateHandle h script args).outcome
  | dispose h => do let _ ← ((realm patience).dispose h).outcome

/-- The timeline after operations on a new world, each of them run to its end. -/
inductive Session (P : Peer) (patience : Nat) (peer : P.State) (source : String) :
    List Operation → Timeline side.signature (recording P patience).World → Prop where
  | start : Session P patience peer source [] (Timeline.init (World.init peer source, []))
  | next {ops : List Operation} {tl : Timeline side.signature (recording P patience).World}
      (h : Session P patience peer source ops tl) (op : Operation) (budget : Nat)
      (hended : (tl.run (recording P patience) budget (op.activity patience)).1.isSome = true) :
      Session P patience peer source (ops ++ [op])
        (tl.run (recording P patience) budget (op.activity patience)).2

/-- The world while an operation is under way. -/
def during (patience : Nat) (op : Operation) (tl : Timeline side.signature (recording P patience).World)
    (turns : Nat) : Recorded P :=
  ((Run.start (recording P patience) (op.activity patience) tl none).finish (recording P patience)
    turns).timeline.world

/-- The record of a timeline. -/
abbrev asked (tl : Timeline side.signature (recording P patience).World) : List (Instant P) := tl.world.2

/-- The condition on records that says nothing. -/
abbrev Free (P : Peer) : List (Instant P) → Prop := fun _ => True

section Silent

variable (hP : ∀ method params s, (P.command method params s).2.1 = [])
include hP

/-- Every operation keeps the memory true. -/
theorem solo_operation {script : String} (op : Operation) {x : Recorded P}
    (h : Coherent source script (Free P) x) :
    Solo (recording P patience) (fun y => Throughout (Meets source script (Free P)) y.2)
      (fun _ y => Coherent source script (Free P) y) (op.activity patience) x := by
  have hcall (y : Recorded P) (hy : Coherent source script (Free P) y) (function : String)
      (arguments : List Json) (byValue : Bool) :
      Leads P patience source script (Free P) y (callFunction function arguments byValue) fun _ _ => True :=
    (leads_callFunction hP hy fun _ _ => .inr trivial).mono fun _ _ _ _ _ => trivial
  have hinvoke (handle : Handle) (function : String) (args : List (Argument Handle)) (byValue : Bool) :
      Leads P patience source script (Free P) x (handle.invoke function args byValue) fun _ _ => True :=
    (leads_handleArgument handle h).bind fun _ y hy _ _ => (leads_callArguments args hy).bind
      fun _ z hz _ _ => hcall z hz _ _ _
  have hwrap (y : Recorded P) (hy : Coherent source script (Free P) y) (remote : Protocol.RemoteObject) :
      Leads P patience source script (Free P) y (wrap remote) fun _ _ => True :=
    (leads_wrap remote hy).mono fun _ _ _ _ _ => trivial
  have hdone {γ : Type} {a : side.Action γ}
      (ha : Leads P patience source script (Free P) x a fun _ _ => True) :
      Solo (recording P patience) (fun y => Throughout (Meets source script (Free P)) y.2)
        (fun _ y => Coherent source script (Free P) y)
        (Activity.bind a.outcome fun _ => .done ()) x :=
    Prompt.thenSolo (Prompt.mono ha fun _ _ hy => hy.1)
  cases op with
  | call function args =>
    exact hdone ((leads_callArguments args h).bind fun _ y hy _ _ => (hcall y hy _ _ _).bind
      fun _ z hz _ _ => leads_pure hz trivial)
  | callHandle function args =>
    exact hdone ((leads_callArguments args h).bind fun _ y hy _ _ => (hcall y hy _ _ _).bind
      fun remote z hz _ _ => hwrap z hz remote)
  | utility => exact hdone (leads_utility hP h)
  | waitFor function wait bindings args =>
    exact (solo_waitFor hP (fun _ _ => trivial) function wait args h rfl).bind
  | evaluate handle function args =>
    exact hdone ((hinvoke handle function args true).bind fun _ z hz _ _ => leads_pure hz trivial)
  | evaluateHandle handle function args =>
    exact hdone ((hinvoke handle function args false).bind fun remote z hz _ _ => hwrap z hz remote)
  | dispose handle => exact hdone (leads_dispose hP handle h)

/-- Between operations what is remembered is true, and nobody is there. -/
theorem Session.coherent {peer : P.State} {ops : List Operation}
    {tl : Timeline side.signature (recording P patience).World}
    (h : Session P patience peer source ops tl) (script : String) :
    Coherent source script (Free P) tl.world ∧ tl.ready = [] ∧ tl.tasks = [] := by
  induction h with
  | start => exact ⟨⟨remembers_init peer source, throughout_nil⟩, rfl, rfl⟩
  | next _ op budget hended ih =>
    obtain ⟨hcoherent, hready, htasks⟩ := ih
    obtain ⟨u, hrun⟩ := Option.isSome_iff_exists.mp hended
    exact (solo_operation hP op hcoherent).run hready htasks (Prod.ext hrun rfl)

omit hP in
/-- Before a wait no condition is put on calls. -/
theorem Coherent.wait {script : String} {start : List (Instant P)} {bindings : List (Binding Handle)}
    {x : Recorded P} (h : Coherent source script (Free P) x) (hstart : x.2 = start) :
    Coherent source script (fun before => start <+: before → Bound start bindings before) x := by
  refine ⟨h.remembers, fun before i after hsplit => ⟨(h.throughout before i after hsplit).1, ?_⟩⟩
  rintro - hprefix
  have hlength := hprefix.length_le
  rw [← hstart, hsplit, List.length_append, List.length_cons] at hlength
  omega

/-- At every moment of a session calls go to the global object that was given last and not lost since,
and nothing was asked for twice in one life; and whenever a function that is waited for is called, its
bindings have been installed in this life, unless this wait has released a result and was told of a
dead context. -/
theorem coherent_of_session {peer : P.State} {ops : List Operation}
    {tl : Timeline side.signature (recording P patience).World}
    (h : Session P patience peer source ops tl) (op : Operation) (turns : Nat) :
    Throughout (Proper source) (during patience op tl turns).2 ∧
      ∀ script wait bindings args, op = .waitFor script wait bindings args →
        ∀ (before : List (Instant P)) (i : Instant P) (after : List (Instant P)),
          (during patience op tl turns).2 = asked tl ++ before ++ i :: after → i.calls script = true →
            (∀ b ∈ bindings, isInstalled b.name (lifetime (asked tl ++ before)) = true) ∨
              ∃ j ∈ before, j.isRelease = true ∧ j.tellsDeath = true := by
  obtain ⟨-, hready, htasks⟩ := h.coherent hP ""
  refine ⟨?_, ?_⟩
  · have hsolo := ((solo_operation hP op (h.coherent hP "").1).start hready htasks none).finish turns
    have hthroughout : Throughout (Meets source "" (Free P)) (during patience op tl turns).2 :=
      hsolo.world.elim id fun ⟨_, _, hend⟩ => hend.throughout
    exact hthroughout.mono fun _ _ hmeets => hmeets.1
  · rintro script wait bindings args rfl before i after hsplit hcalls
    have hbegin : Coherent source script
        (fun before => asked tl <+: before → Bound (asked tl) bindings before) tl.world :=
      (h.coherent hP script).1.wait rfl
    have hbound (before : List (Instant P)) (h : Bound (asked tl) bindings before) :
        asked tl <+: before → Bound (asked tl) bindings before := fun _ => h
    have hwait : Solo (recording P patience)
        (fun y => Throughout (Meets source script fun before => asked tl <+: before →
          Bound (asked tl) bindings before) y.2)
        (fun _ y => Coherent source script (fun before => asked tl <+: before →
          Bound (asked tl) bindings before) y)
        (Operation.activity patience (.waitFor script wait bindings args)) tl.world :=
      (solo_waitFor hP hbound script wait args hbegin rfl).bind
    have hsolo := (hwait.start hready htasks none).finish turns
    have hthroughout : Throughout (Meets source script fun before => asked tl <+: before →
        Bound (asked tl) bindings before)
        (during patience (.waitFor script wait bindings args) tl turns).2 :=
      hsolo.world.elim id fun ⟨_, _, hend⟩ => hend.throughout
    obtain ⟨meanwhile, hmeanwhile, hinstalled⟩ :=
      (hthroughout _ i after hsplit).2 hcalls (List.prefix_append _ _)
    obtain rfl := List.append_cancel_left hmeanwhile
    exact hinstalled

end Silent

/-! ### A page that dies -/

/-- What a page replies whose context dies when it is told to release something: a function that is
called before gives an object that stands for nothing, and afterwards it gives true. -/
def mortalReply (method : String) (params : Json) (dead : Bool) : Except Error Json :=
  if method = "Runtime.releaseObject" then .error (.protocol "Cannot find context with specified id")
  else if (params.member "returnByValue").bool? = some false then
    .ok (.object [("result", if dead then .object [("value", .bool true)]
      else .object [("subtype", .string "null"), ("objectId", .string "nothing")])])
  else .ok (.object [("result", .object [("objectId", .string "global")])])

/-- A page that dies once. -/
def mortal : Peer where
  State := Bool
  command method params dead :=
    (⟨0, mortalReply method params dead⟩, [], dead || method == "Runtime.releaseObject")
  listen _ := .ok ()
  close dead := (.ok (), dead)

/-- A wait for a function that calls another one, of the program. -/
def mortalWait : Operation :=
  .waitFor "() => ready()" ⟨1000, .interval 100⟩ [⟨"ready", .native fun _ => .ok .undefined⟩] []

/-- The timeline of a new world. -/
def mortalStart : Timeline side.signature (recording mortal 0).World :=
  .init (World.init false "bundle", [])

/-- The timeline once the utility bundle has been asked for. -/
def mortalNext : Timeline side.signature (recording mortal 0).World :=
  (mortalStart.run (recording mortal 0) 10 (Operation.utility.activity 0)).2

theorem session_mortal : Session mortal 0 false "bundle" [.utility] mortalNext :=
  .next .start .utility 10 (by decide +kernel)

theorem coherent_of_mortal :
    Session mortal 0 false "bundle" [.utility] mortalNext ∧
      Throughout (Proper "bundle") (during 0 mortalWait mortalNext 10).2 ∧
      ((during 0 mortalWait mortalNext 10).2.filterMap Instant.globalGiven).length = 2 ∧
      ∀ (before : List (Instant mortal)) (i : Instant mortal) (after : List (Instant mortal)),
        (during 0 mortalWait mortalNext 10).2 = asked mortalNext ++ before ++ i :: after →
          i.calls "() => ready()" = true →
            isInstalled "ready" (lifetime (asked mortalNext ++ before)) = true ∨
              ∃ j ∈ before, j.isRelease = true ∧ j.tellsDeath = true := by
  have hquiet : ∀ method params s, (mortal.command method params s).2.1 = [] := fun _ _ _ => rfl
  obtain ⟨hproper, hcalls⟩ := coherent_of_session hquiet session_mortal mortalWait 10
  refine ⟨session_mortal, hproper, by decide +kernel, fun before i after hsplit hi => ?_⟩
  exact (hcalls _ _ _ _ rfl before i after hsplit hi).imp_left fun hall => hall _ (List.mem_singleton_self _)

/-- On a new world the function is called a second time in a life in which the other is not installed. -/
theorem calls_unbound :
    ∃ (before : List (Instant mortal)) (i : Instant mortal) (after : List (Instant mortal)),
      (during 0 mortalWait mortalStart 10).2 = before ++ i :: after ∧ i.calls "() => ready()" = true ∧
        isInstalled "ready" (lifetime before) = false := by
  have hagain : ((during 0 mortalWait mortalStart 10).2[16]?).any (·.calls "() => ready()") = true := by
    decide +kernel
  obtain ⟨i, hi, hcalls⟩ := (Option.any_eq_true _ _).mp hagain
  obtain ⟨hlength, rfl⟩ := List.getElem?_eq_some_iff.mp hi
  refine ⟨(during 0 mortalWait mortalStart 10).2.take 16, _, (during 0 mortalWait mortalStart 10).2.drop 17,
    ?_, hcalls, by decide +kernel⟩
  rw [List.getElem_cons_drop, List.take_append_drop]

end Wayfind.Remote
