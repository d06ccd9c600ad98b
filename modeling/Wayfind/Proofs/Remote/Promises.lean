/-
Every call is answered once, unless its result is disposed.

Calls from the page are answered side by side, and between any two questions of one anybody else may
change the world.  All the same each is answered with what its function ended with, with one exception:
the arguments are released before the result is described, so a result that is one of them is disposed
by then (`Answering.spoilt_of_mem`), and such a call is not answered at all.
-/
import Mathlib
import Wayfind.Proofs.Remote.Concluding

namespace Wayfind.Remote

open Activity (Asks Ends Mingled Numbered Deed asks_forM)
open PageSide (Action)
open Protocol (RemoteObject)

variable {P : Peer} {patience : Nat}

/-! ### Keeping and breaking promises -/

/-- What a page function takes for a result. -/
def described : Argument Handle → Json
  | .value v => valueArgument v
  | .undefined => .object []
  | .handle h =>
    match h.remote.objectId with
    | some id => .object [("objectId", .string id)]
    | none => valueArgument h.remote.localValue

/-- How a call has to be answered. -/
def due (name : String) (call : Json) : Except Error (Argument Handle) → Settlement
  | .ok result => .keeping name call (described result)
  | .error e => .breaking name call e.message

/-- Ends the promise of a call as its function has ended. -/
def settle (patience : Nat) (name : String) (call : Json) :
    Except Error (Argument Handle) → side.Action Unit
  | .ok result => resolveCall patience name call result
  | .error e => rejectCall name call e

/-- The result is a handle, and the first that is found out is that it is disposed. -/
def Spoilt (outcome : Except Error (Argument Handle)) (record : List (Instant P)) : Prop :=
  ∃ (h : Handle) (w : World P), outcome = .ok (.handle h) ∧
    record.head? = some ⟨w, .isDisposed h⟩ ∧ w.isDisposed h = true

/-- The promise of a call is ended once at most. -/
def EndsOnce (name : String) (call : Json) (record : List (Instant P)) : Prop :=
  settlements record = [] ∨ ∃ s, settlements record = [s] ∧ s.Concerns name call

/-- A result is described, unless it is a handle that is disposed. -/
theorem concludes_callArgument {a : Argument Handle} {record : List (Instant P)} {r : Except Error Json}
    (h : Concludes P patience (callArgument a) record r) :
    (Spoilt (.ok a) record ∧ r = .error .disposed) ∨
      (∀ rest, ¬ Spoilt (.ok a) (record ++ rest)) ∧ r = .ok (described a) := by
  cases a with
  | value v =>
    obtain ⟨rfl, rfl⟩ := h.ofPure
    exact Or.inr ⟨fun rest ⟨_, _, houtcome, _⟩ => absurd (Except.ok.inj houtcome) nofun, rfl⟩
  | undefined =>
    obtain ⟨rfl, rfl⟩ := h.ofPure
    exact Or.inr ⟨fun rest ⟨_, _, houtcome, _⟩ => absurd (Except.ok.inj houtcome) nofun, rfl⟩
  | handle handle =>
    obtain ⟨w, rest, rfl, hrest⟩ := Concludes.ask h
    by_cases hdisposed : w.isDisposed handle = true
    · rw [show (w.answer (.isDisposed handle)).1 = true from hdisposed] at hrest
      obtain ⟨rfl, rfl⟩ := Concludes.ofThrow hrest
      exact Or.inl ⟨⟨handle, w, rfl, rfl, hdisposed⟩, rfl⟩
    · rw [show (w.answer (.isDisposed handle)).1 = false from eq_false_of_ne_true hdisposed] at hrest
      refine Or.inr ⟨?_, ?_⟩
      · rintro more ⟨other, v, houtcome, hhead, hother⟩
        obtain rfl : handle = other := Argument.handle.inj (Except.ok.inj houtcome)
        obtain rfl : w = v := congrArg Activity.Moment.world (Option.some.inj hhead)
        exact hdisposed hother
      · replace hrest : Concludes P patience (match handle.remote.objectId with
          | some id => pure (Json.object [("objectId", .string id)])
          | none => pure (valueArgument handle.remote.localValue)) rest r := hrest
        cases hid : handle.remote.objectId with
        | some id =>
          rw [hid] at hrest
          simp only [described, hid]
          exact hrest.ofPure.2
        | none =>
          rw [hid] at hrest
          simp only [described, hid]
          exact hrest.ofPure.2

/-- A call is answered once at most, and as it has to be; where commands succeed it is answered, unless
the result is a handle that is disposed. -/
theorem settlements_settle {name : String} {call : Json} {outcome : Except Error (Argument Handle)}
    {record : List (Instant P)} {r : Except Error Unit}
    (h : Concludes P patience (settle patience name call outcome) record r) :
    (Spoilt outcome record ∧ settlements record = []) ∨
      ¬ Spoilt outcome record ∧
        (settlements record = [] ∨ settlements record = [due name call outcome]) ∧
        (Succeed record → settlements record = [due name call outcome]) := by
  cases outcome with
  | error e =>
    refine Or.inr ⟨?_, ?_⟩
    · rintro ⟨_, _, hc, _⟩
      cases hc
    · refine settlements_callThen (Settlement.ofCall?_rejectCall _ _ _) (f := fun _ => pure ()) (fun _ => ?_) h
      trivial
  | ok result =>
    rcases h.andThen with ⟨e, rfl, hfailed⟩ | ⟨first, second, value, rfl, hfirst, hsecond⟩
    · rcases concludes_callArgument hfailed with ⟨hspoilt, -⟩ | ⟨-, hvalue⟩
      · exact Or.inl ⟨hspoilt, hfailed.calm (asks_callArgument mild_calm.toPlain result)⟩
      · cases hvalue
    · rcases concludes_callArgument hfirst with ⟨-, hfailed⟩ | ⟨hsound, hvalue⟩
      · cases hfailed
      · obtain rfl : value = described result := Except.ok.inj hvalue
        rw [settlements_append, hfirst.calm (asks_callArgument mild_calm.toPlain result), List.nil_append]
        refine Or.inr ⟨hsound second, (settlements_callThen
          (Settlement.ofCall?_resolveCall name call _) (fun _ => ?_) hsecond).imp_right
            fun hall hok => hall (succeed_append.mp hok).2⟩
        cases result with
        | handle handle => exact asks_releaseIn mild_calm.toPlain handle
        | _ => trivial

/-! ### Answering a call -/

/-- The call that an event tells of: the function's name, and the number of the call. -/
def calledBy? (e : Protocol.Event) : Option (String × Json) :=
  if e.method = "Runtime.bindingCalled" then do
    let name ← calledName? e.params
    let payload ← Json.ofText? (((e.params.member "payload").string?).getD "\x7b\x7d")
    return (name, payload.member "id")
  else none

/-- How a call was answered: the function was found, took the arguments, and ran; the arguments were
released, and the promise was ended. -/
structure Answering (P : Peer) (patience : Nat) (name : String) (call : Json) (record : List (Instant P)) where
  found : World P
  host : Host Handle
  args : List Handle
  outcome : Except Error (Argument Handle)
  taking : List (Instant P)
  running : List (Instant P)
  releasing : List (Instant P)
  settling : List (Instant P)
  whole : record = [⟨found, .host name⟩] ++ (taking ++ (running ++ (releasing ++ settling)))
  looked : found.hosts.lookup name = some host
  took : Concludes P patience (takeArguments patience name call) taking (.ok args)
  ran : Concludes P patience (Wayfind.Query.answerHost (realm patience) host args) running outcome
  released : Concludes P patience (args.forM (realm patience).releaseIn) releasing (.ok ())
  settled : ∃ r, Concludes P patience (settle patience name call outcome) settling r

section Answering

variable {name : String} {call : Json} {record : List (Instant P)}

/-- Promises are ended only in the end. -/
theorem Answering.settlements_eq (c : Answering P patience name call record) :
    settlements record = settlements c.settling := by
  have htaking := c.took.calm (asks_takeArguments mild_calm name call)
  have hrunning := c.ran.calm (asks_answerHost mild_calm c.host c.args)
  have hreleasing := c.released.calm (asks_forM (asks_releaseIn mild_calm.toPlain) c.args)
  refine (congrArg settlements c.whole).trans ?_
  simp only [settlements_append, htaking, hrunning, hreleasing, List.nil_append]
  rfl

/-- No function of that name is found, or its arguments cannot be taken, or the call is answered. -/
theorem answerCall_cases {params payload : Json} {r : Except Error Unit}
    (hpayload : Json.ofText? (((params.member "payload").string?).getD "\x7b\x7d") = some payload)
    (h : Concludes P patience (answerCall patience name params) record r) :
    (∃ found : World P, record = [⟨found, .host name⟩] ∧ found.hosts.lookup name = none) ∨
      (∃ (found : World P) (taking : List (Instant P)) (e : Error), record = ⟨found, .host name⟩ :: taking ∧
        Concludes P patience (takeArguments patience name (payload.member "id")) taking (.error e)) ∨
      Nonempty (Answering P patience name (payload.member "id") record) := by
  unfold answerCall at h
  rw [hpayload] at h
  obtain ⟨found, rest, rfl, hrest⟩ := Concludes.ask h
  cases hlooked : found.hosts.lookup name with
  | none =>
    rw [show (found.answer (.host name)).1 = none from hlooked] at hrest
    obtain ⟨rfl, rfl⟩ := Concludes.ofThrow hrest
    exact Or.inl ⟨found, rfl, hlooked⟩
  | some host =>
    rw [show (found.answer (.host name)).1 = some host from hlooked] at hrest
    rcases Concludes.andThen hrest with ⟨e, rfl, hfailed⟩ | ⟨taking, second, args, rfl, htook, hsecond⟩
    · exact Or.inr (Or.inl ⟨found, rest, e, rfl, hfailed⟩)
    · obtain ⟨running, third, outcome, rfl, hran, hthird⟩ := Concludes.attempt hsecond
      rcases Concludes.andThen hthird with ⟨e, rfl, hfailed⟩ | ⟨releasing, settling, u, rfl, hreleased, hsettling⟩
      · exact absurd (concludes_releases hfailed).1 nofun
      · refine Or.inr (Or.inr ⟨⟨found, host, args, outcome, taking, running, releasing, settling, rfl, hlooked,
          htook, hran, hreleased, r, ?_⟩⟩)
        cases outcome <;> exact hsettling

/-- A call is answered, unless no function of that name was found, or a command failed. -/
theorem concludes_answerCall {params payload : Json} {r : Except Error Unit}
    (hpayload : Json.ofText? (((params.member "payload").string?).getD "\x7b\x7d") = some payload)
    (h : Concludes P patience (answerCall patience name params) record r) :
    (settlements record = [] ∧
      ((∃ w : World P, (⟨w, .host name⟩ : Instant P) ∈ record ∧ w.hosts.lookup name = none) ∨
        ¬ Succeed record)) ∨
      Nonempty (Answering P patience name (payload.member "id") record) := by
  rcases answerCall_cases hpayload h with ⟨found, rfl, hlooked⟩ | ⟨found, taking, e, rfl, hfailed⟩ | hanswering
  · exact Or.inl ⟨rfl, Or.inl ⟨found, List.mem_singleton_self _, hlooked⟩⟩
  · refine Or.inl ⟨hfailed.calm (asks_takeArguments mild_calm name _), Or.inr fun hok => ?_⟩
    obtain ⟨args, hargs, -⟩ := achieves_takeArguments name _ taking _ (succeed_cons.mp hok).2 hfailed
    exact absurd hargs nofun
  · exact Or.inr hanswering

/-- Whoever handles the event of a call answers it. -/
theorem concludes_handle {e : Protocol.Event} (hcalled : calledBy? e = some (name, call))
    (h : Ends (backend P patience) (handle patience e) record ()) :
    (settlements record = [] ∧
      ((∃ w : World P, (⟨w, .host name⟩ : Instant P) ∈ record ∧ w.hosts.lookup name = none) ∨
        ¬ Succeed record)) ∨
      Nonempty (Answering P patience name call record) := by
  unfold calledBy? at hcalled
  unfold handle at h
  split at hcalled
  · rename_i hmethod
    rw [if_pos hmethod] at h
    obtain ⟨called, hname, hcalled⟩ := Option.bind_eq_some_iff.mp hcalled
    obtain ⟨payload, hpayload, hcall⟩ := Option.bind_eq_some_iff.mp hcalled
    obtain ⟨rfl, rfl⟩ := Prod.mk.inj (Option.some.inj hcall)
    rw [hname] at h
    obtain ⟨first, second, r, rfl, hfirst, hsecond⟩ := Activity.ends_bind h
    obtain ⟨rfl, -⟩ := Activity.ends_done hsecond
    rw [List.append_nil]
    exact concludes_answerCall hpayload hfirst
  · exact absurd hcalled nofun

end Answering

/-! ### What every answer keeps -/

/-- Functions that are lent stay lent, and handles that are disposed stay so. -/
structure Ages (u v : World P) : Prop where
  lent : ∀ name, (u.hosts.lookup name).isSome = true → (v.hosts.lookup name).isSome = true
  size : u.ledger.size ≤ v.ledger.size
  disposed : ∀ id : Nat, u.ledger[id]? = some true → v.ledger[id]? = some true

theorem ages_refl (w : World P) : Ages w w := ⟨fun _ h => h, Nat.le_refl _, fun _ h => h⟩

theorem ages_of_same {u v : World P} (hhosts : v.hosts = u.hosts) (hledger : v.ledger = u.ledger) :
    Ages u v :=
  ⟨fun name h => by rwa [hhosts], Nat.le_of_eq (congrArg Array.size hledger).symm,
    fun id h => by rwa [hledger]⟩

theorem ages_trans (u v w : World P) (huv : Ages u v) (hvw : Ages v w) : Ages u w :=
  ⟨fun name h => hvw.lent name (huv.lent name h), huv.size.trans hvw.size,
    fun id h => hvw.disposed id (huv.disposed id h)⟩

theorem ages_answer (q : Query) (w : World P) : Ages w (w.answer q).2.1 := by
  cases q with
  | wrap remote =>
    refine ⟨fun _ h => h, ?_, fun id h => ?_⟩
    · show w.ledger.size ≤ (w.ledger.push false).size
      rw [Array.size_push]
      exact Nat.le_succ _
    · have hid : id < w.ledger.size := (Array.getElem?_eq_some_iff.mp h).1
      show (w.ledger.push false)[id]? = some true
      rw [Array.getElem?_push_lt hid, ← h, Array.getElem?_eq_getElem hid]
  | dispose handle =>
    refine ⟨fun _ h => h, ?_, fun id h => ?_⟩
    · show w.ledger.size ≤ (w.ledger.setIfInBounds handle.id true).size
      rw [Array.size_setIfInBounds]
    · show (w.ledger.setIfInBounds handle.id true)[id]? = some true
      rw [Array.getElem?_setIfInBounds]
      split
      · rename_i hsame
        rw [if_pos (hsame ▸ (Array.getElem?_eq_some_iff.mp h).1)]
      · exact h
  | lend binding =>
    refine ⟨fun name h => ?_, Nat.le_refl _, fun _ h => h⟩
    show (((binding.name, binding.host) ::
      w.hosts.filter fun lent => lent.1 != binding.name).lookup name).isSome = true
    rw [List.lookup_isSome_iff] at h ⊢
    obtain ⟨lent, hmem, hname⟩ := h
    by_cases hsame : lent.1 = binding.name
    · exact ⟨_, List.mem_cons_self, by rwa [← hsame]⟩
    · exact ⟨lent, List.mem_cons_of_mem _ (List.mem_filter.mpr ⟨hmem, bne_iff_ne.mpr hsame⟩), hname⟩
  | listen =>
    simp only [World.answer]
    split <;> exact ages_of_same rfl rfl
  | _ => exact ages_of_same rfl rfl

/-- A handle that is released is disposed ever after. -/
theorem isDisposed_of_ages {u v : World P} {h : Handle} (hmade : h.id < u.ledger.size)
    (hages : Ages (u.answer (.dispose h)).2.1 v) : v.isDisposed h = true := by
  have hdisposed : v.ledger[h.id]? = some true := by
    refine hages.disposed h.id ?_
    show (u.ledger.setIfInBounds h.id true)[h.id]? = some true
    rw [Array.getElem?_setIfInBounds_self_of_lt hmade]
  rw [World.isDisposed, hdisposed]
  rfl

/-! ### Every call is answered -/

section Settling

variable {name : String} {call : Json} {record : List (Instant P)}

theorem due_concerns (name : String) (call : Json) (outcome : Except Error (Argument Handle)) :
    (due name call outcome).Concerns name call := by
  cases outcome <;> exact ⟨_, rfl⟩

theorem EndsOnce.left {more : List (Instant P)} (h : EndsOnce name call (record ++ more)) :
    EndsOnce name call record := by
  rw [EndsOnce, settlements_append] at h
  rcases h with hnone | ⟨s, hone, hconcerns⟩
  · exact Or.inl (List.append_eq_nil_iff.mp hnone).1
  · rcases List.append_eq_singleton_iff.mp hone with ⟨hnone, -⟩ | ⟨hone, -⟩
    · exact Or.inl hnone
    · exact Or.inr ⟨s, hone, hconcerns⟩

/-- Whoever handles the event of a call ends its promise once at most. -/
theorem endsOnce_handle {e : Protocol.Event} (hcalled : calledBy? e = some (name, call))
    (h : Ends (backend P patience) (handle patience e) record ()) : EndsOnce name call record := by
  rcases concludes_handle hcalled h with ⟨hnone, -⟩ | ⟨⟨c⟩⟩
  · exact Or.inl hnone
  · obtain ⟨r, hsettle⟩ := c.settled
    rw [EndsOnce, c.settlements_eq]
    rcases settlements_settle hsettle with ⟨-, hnone⟩ | ⟨-, hnone | hone, -⟩
    · exact Or.inl hnone
    · exact Or.inl hnone
    · exact Or.inr ⟨_, hone, due_concerns name call c.outcome⟩

theorem concludes_settleHandle {h : Handle} {r : Except Error Unit}
    (hr : Concludes P patience (settle patience name call (.ok (.handle h))) record r) :
    ∃ w rest, record = ⟨w, .isDisposed h⟩ :: rest := by
  rcases Concludes.andThen hr with ⟨e, rfl, hfailed⟩ | ⟨first, second, value, rfl, hfirst, -⟩
  · obtain ⟨w, rest, rfl, -⟩ := Concludes.ask hfailed
    exact ⟨w, rest, rfl⟩
  · obtain ⟨w, rest, rfl, -⟩ := Concludes.ask hfirst
    exact ⟨w, rest ++ second, rfl⟩

/-- A call whose result is one of its arguments is not answered: the arguments are released first. -/
theorem Answering.spoilt_of_mem (c : Answering P patience name call record) {w : World P}
    (haged : Activity.Aged (B := backend P patience) Ages w record) (hok : Succeed record) {h : Handle}
    (hmem : h ∈ c.args) (houtcome : c.outcome = .ok (.handle h)) : Spoilt c.outcome c.settling := by
  have horder := haged.order
  rw [c.whole] at horder hok
  obtain ⟨hs, hargs, hmade⟩ := achieves_takeArguments name call c.taking _
    (succeed_append.mp (succeed_append.mp hok).2).1 c.took
  obtain rfl : c.args = hs := Except.ok.inj hargs
  obtain ⟨u, remote, hwrapped, rfl⟩ := hmade h hmem
  obtain ⟨v, hreleased⟩ := (concludes_releases c.released).2 _ hmem
  obtain ⟨r, hsettle⟩ := c.settled
  rw [houtcome] at hsettle
  obtain ⟨found, rest, hsettling⟩ := concludes_settleHandle hsettle
  -- The handle was made before it was released, and released before it is looked at.
  obtain ⟨-, horder, -⟩ := List.pairwise_append.mp horder
  obtain ⟨-, horder, hafterTaking⟩ := List.pairwise_append.mp horder
  obtain ⟨-, horder, -⟩ := List.pairwise_append.mp horder
  obtain ⟨-, -, hafterReleasing⟩ := List.pairwise_append.mp horder
  have hlooked : (⟨found, .isDisposed (u.wrap remote).1⟩ : Instant P) ∈ c.settling := by
    rw [hsettling]
    exact List.mem_cons_self
  have hgrown : Ages (u.wrap remote).2 v := hafterTaking _ hwrapped _
    (List.mem_append_right _ (List.mem_append_left _ hreleased))
  have hlast : Ages (v.answer (.dispose (u.wrap remote).1)).2.1 found :=
    hafterReleasing _ hreleased _ hlooked
  have hmade : (u.wrap remote).1.id < v.ledger.size := by
    refine Nat.lt_of_lt_of_le ?_ hgrown.size
    show u.ledger.size < (u.ledger.push false).size
    rw [Array.size_push]
    exact Nat.lt_succ_self _
  exact ⟨_, found, houtcome, by rw [hsettling, List.head?_cons], isDisposed_of_ages hmade hlast⟩

end Settling

/-- What becomes of a call, of which a background activity takes care, in the course of a mingling. -/
structure Settles (P : Peer) (patience : Nat) (name : String) (call : Json)
    (start : Activity.Timeline side.signature (backend P patience).World) (id : Nat)
    (deeds : List (Deed (backend P patience)))
    (tl : Activity.Timeline side.signature (backend P patience).World) : Prop where
  /-- Its promise has been ended once at most, and no other one. -/
  once : EndsOnce name call (Activity.asked id deeds)
  /-- Nobody can keep it from its end. -/
  ends : ∃ more after, (∀ d ∈ more, d.who = some id) ∧
    Mingled (backend P patience) start (deeds ++ more) after ∧ ∀ task ∈ after.tasks, task.id ≠ id
  /-- When it has ended and all of its commands have succeeded, its function was found, took the
  arguments and ran.  The promise was ended as the function ended, unless the result is a handle that
  was disposed then, as each of the arguments was; then it is never ended. -/
  settled : (∀ task ∈ tl.tasks, task.id ≠ id) → Succeed (P := P) (Activity.asked id deeds) →
    ∃ c : Answering P patience name call (Activity.asked id deeds),
      (¬ Spoilt c.outcome c.settling → settlements (P := P) (Activity.asked id deeds) = [due name call c.outcome]) ∧
      (Spoilt c.outcome c.settling → settlements (P := P) (Activity.asked id deeds) = []) ∧
      ∀ h ∈ c.args, c.outcome = .ok (.handle h) → Spoilt c.outcome c.settling

/-- A call whose function is lent has its promise ended once at most, amid whatever others do, and nobody
can keep it from its end.  When it has ended and none of its commands has failed, the promise is ended as
the function was, unless the function's result is a handle that has been disposed by then. -/
theorem settled_of_mingled {start tl : Activity.Timeline side.signature (backend P patience).World}
    {deeds : List (Deed (backend P patience))} {id : Nat} {e : Protocol.Event} {name : String} {call : Json}
    (hrun : Mingled (backend P patience) start deeds tl) (hnumbered : Numbered start)
    (htask : ⟨id, handle patience e⟩ ∈ start.tasks) (hcalled : calledBy? e = some (name, call))
    (hlent : (World.hosts (P := P) start.world |>.lookup name).isSome = true) :
    Settles P patience name call start id deeds tl := by
  have hends := hrun.exists_ending hnumbered htask (asks_handle mild_patient (fun _ _ => nofun) e)
  refine ⟨?_, hends, fun hgone hok => ?_⟩
  · obtain ⟨more, after, -, hafter, hgone⟩ := hends
    have hwhole := endsOnce_handle hcalled (hafter.ends_of_gone hnumbered htask hgone)
    rw [Activity.asked_append] at hwhole
    exact hwhole.left
  · have haged := (hrun.ages (R := Ages) ages_refl ages_trans ages_answer).2.1.asked id
    rcases concludes_handle hcalled (hrun.ends_of_gone hnumbered htask hgone) with
      ⟨-, ⟨w, hmem, hnone⟩ | hfailed⟩ | ⟨⟨c⟩⟩
    · have hfound := (haged.first _ hmem).lent name hlent
      rw [hnone] at hfound
      exact absurd hfound nofun
    · exact absurd hok hfailed
    · obtain ⟨r, hsettle⟩ := c.settled
      have hoks : Succeed c.settling := by
        rw [c.whole] at hok
        simp only [succeed_append] at hok
        exact hok.2.2.2.2
      refine ⟨c, fun hsound => ?_, fun hspoilt => ?_, fun h hmem => c.spoilt_of_mem haged hok hmem⟩
      · rw [c.settlements_eq]
        exact ((settlements_settle hsettle).resolve_left fun h => hsound h.1).2.2 hoks
      · rw [c.settlements_eq]
        exact ((settlements_settle hsettle).resolve_right fun h => h.1 hspoilt).2

/-! ### A page that calls with a node -/

/-- What a page replies that calls a function of the program with one of its nodes. -/
def callerReply (method : String) : Json :=
  if method = "Runtime.evaluate" then .object [("result", .object [("objectId", .string "global")])]
  else if method = "Runtime.callFunctionOn" then
    .object [("result", .object [("objectId", .string "arguments")])]
  else if method = "Runtime.getProperties" then
    .object [("result", .array [.object [("name", .string "0"), ("enumerable", .bool true),
      ("value", .object [("objectId", .string "node")])]])]
  else .object []

/-- A page that calls a function of the program with one of its nodes. -/
def caller : Peer where
  State := Unit
  command method _ _ := (⟨0, .ok (callerReply method)⟩, [], ())
  listen _ := .ok ()
  close _ := (.ok (), ())

/-- Every command to it succeeds. -/
theorem succeed_caller (record : List (Instant caller)) : Succeed record := by
  rintro ⟨w, q⟩ -
  cases q with
  | command method doc =>
    refine ⟨callerReply method, rfl, ?_⟩
    unfold IsReply
    split
    · rename_i hcall
      rcases hcall with rfl | rfl
      · exact ⟨_, rfl, Or.inr rfl⟩
      · exact ⟨_, rfl, Or.inr rfl⟩
    · split
      · rename_i hlist
        rw [hlist]
        exact ⟨_, rfl⟩
      · trivial
  | _ => trivial

/-- The event of its first call. -/
def callerEvent : Protocol.Event :=
  ⟨"Runtime.bindingCalled",
    .object [("name", .string "__chaser_binding__f"), ("payload", .string "\x7b\"id\":1\x7d")], none⟩

/-- The event is about to be handled; the function is what it calls. -/
def callerStart (run : List Handle → Except Error (Argument Handle)) :
    Activity.Timeline side.signature (backend caller 0).World :=
  { Activity.Timeline.init (S := side.signature)
      { World.init (P := caller) () "bundle" with hosts := [("f", .native run)] } with
    tasks := [⟨0, handle 0 callerEvent⟩]
    nextTask := 1 }

/-- What is asked until the event has been handled. -/
def callerDeeds (run : List Handle → Except Error (Argument Handle)) : List (Deed (backend caller 0)) :=
  Activity.deedsOf (some 0) (((callerStart run).besides 0).questions (backend caller 0)
    (Activity.Timeline.onward ((callerStart run).besides 0) (handle 0 callerEvent)))

/-- The event has been handled. -/
def callerEnd (run : List Handle → Except Error (Argument Handle)) :
    Activity.Timeline side.signature (backend caller 0).World :=
  Activity.Timeline.runTask (backend caller 0) (callerStart run) 0

theorem numbered_caller (run : List Handle → Except Error (Argument Handle)) : Numbered (callerStart run) :=
  ⟨List.nodup_singleton 0, fun task htask => by
    rw [List.mem_singleton.mp htask]
    exact Nat.zero_lt_one⟩

theorem mingled_caller (run : List Handle → Except Error (Argument Handle)) :
    Mingled (backend caller 0) (callerStart run) (callerDeeds run) (callerEnd run) := by
  have hfind : (callerStart run).tasks.find? (·.id == 0) = some ⟨0, handle 0 callerEvent⟩ := rfl
  have hturn := Mingled.start.turn (numbered_caller run) hfind
  rwa [List.nil_append] at hturn

theorem calledBy?_caller : calledBy? callerEvent = some ("f", .nat 1) := by
  cbv

/-- A function that gives its first argument back. -/
def giveBack (args : List Handle) : Except Error (Argument Handle) :=
  .ok ((args.head?.map Argument.handle).getD .undefined)

/-- A function that gives nothing. -/
def giveNothing (_ : List Handle) : Except Error (Argument Handle) := .ok .undefined

/-- The promise of a call of a function that gives nothing is kept. -/
theorem settled_of_caller :
    Settles caller 0 "f" (.nat 1) (callerStart giveNothing) 0 (callerDeeds giveNothing) (callerEnd giveNothing) ∧
      (callerEnd giveNothing).tasks.isEmpty = true ∧
      (settlements (P := caller) (Activity.asked 0 (callerDeeds giveNothing))).length = 1 :=
  ⟨settled_of_mingled (mingled_caller giveNothing) (numbered_caller giveNothing) (List.mem_singleton_self _)
    calledBy?_caller rfl, by decide +kernel, by decide +kernel⟩

/-- The promise of a call of a function that gives its first argument back is never ended, though the call
has been handled and every command has succeeded. -/
theorem unsettled_of_caller :
    Mingled (backend caller 0) (callerStart giveBack) (callerDeeds giveBack) (callerEnd giveBack) ∧
      (callerEnd giveBack).tasks.isEmpty = true ∧
      Succeed (P := caller) (Activity.asked 0 (callerDeeds giveBack)) ∧
      settlements (P := caller) (Activity.asked 0 (callerDeeds giveBack)) = [] :=
  ⟨mingled_caller giveBack, by decide +kernel, succeed_caller _, List.isEmpty_iff.mp (by decide +kernel)⟩

end Wayfind.Remote
