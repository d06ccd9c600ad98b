/-
What commands to a page behind a connection do to the account.

The peer sends no events.  Whatever it answers, and whichever commands fail, what the
program does with references keeps the account: a call brings the reference in its reply,
a handle that is made takes it over, and to dispose a handle releases it.
-/
import Wayfind.Proofs.Activity.Prompt
import Wayfind.Proofs.Remote.Account

namespace Wayfind.Remote

open Activity (Prompt prompt_andThen prompt_attempt prompt_ofExcept prompt_sleep)
open PageSide (Action)
open Protocol (RemoteObject Evaluation)

/-- The peer sends no events, and answers every command at once unless there is time to wait. -/
structure Peer.Quiet (P : Peer) (waits : Prop) : Prop where
  events : ∀ method params s, (P.command method params s).2.1 = []
  delay : ∀ method params s, 0 < (P.command method params s).1.delay → waits

/-- The backend whose world remembers what it was asked. -/
abbrev recording (P : Peer) (patience : Nat) : Activity.Backend side.signature :=
  (backend P patience).recorded

variable {P : Peer} {patience : Nat} {waits : Prop} {W : Recorded P → Prop} {α β : Type}
  {x : Recorded P} {m rest : Multiset Charge}

/-- The parameters of a call. -/
abbrev callParams (function : String) (arguments : List Json) (byValue : Bool) (id : String) : Json :=
  params [("functionDeclaration", .string function), ("objectId", .string id),
    ("arguments", .array arguments), ("returnByValue", .bool byValue),
    ("awaitPromise", .bool true), ("userGesture", .bool true)]

/-- What stands for a handle in a call. -/
def handleJson (h : Handle) : Json :=
  match h.remote.objectId with
  | some id => .object [("objectId", .string id)]
  | none => valueArgument h.remote.localValue

theorem handleArgument_eq (h : Handle) :
    handleArgument h = ask (.isDisposed h) >>= fun (disposed : Bool) =>
      if disposed then throw .disposed else pure (handleJson h) := by
  unfold handleArgument handleJson
  refine congrArg (ask (.isDisposed h) >>= ·) (funext fun (disposed : Bool) => ?_)
  cases disposed with
  | true => rfl
  | false => cases h.remote.objectId <;> rfl

/-- What a call of a page function comes to, by what comes of the command. -/
def resultOf : Except Error Json → Except Error RemoteObject
  | .error e => .error e
  | .ok reply => match Evaluation.reader.ofJson? reply with
    | none => .error (.serialization "an unexpected reply")
    | some evaluation => match evaluation.exception with
      | some e => .error (thrown e)
      | none => .ok evaluation.result

/-- What comes of a command in a recorded world. -/
def Recorded.reply (x : Recorded P) (method : String) (params : Json) : Except Error Json :=
  (P.command method params x.1.peer).1.outcome

/-! ### Questions -/

/-- The question sets nothing off. -/
def Query.isQuiet : Query → Bool
  | command _ _ | arrive _ => false
  | _ => true

theorem jobs_quiet {q : Query} (hq : q.isQuiet = true) : ((recording P patience).answer q x).2.2 = [] := by
  cases q with
  | command | arrive => exact absurd hq (by simp [Query.isQuiet])
  | listen =>
    show List.map _ (x.1.answer .listen).2.2 = []
    simp only [World.answer]
    split <;> rfl
  | _ => rfl

theorem prompt_ask {Q : Except Error α → Recorded P → Prop} {q : Query} {f : q.Answer → side.Action α}
    (hq : q.isQuiet = true) :
    Prompt (recording P patience) W Q (ask q >>= f).outcome x ↔
      Prompt (recording P patience) W Q (f (x.1.answer q).1).outcome (x.tell q) :=
  Activity.prompt_ask.trans (and_iff_right (jobs_quiet hq))

theorem prompt_command {Q : Except Error Json → Recorded P → Prop} {method : String} {params : Json}
    (hP : P.Quiet (W (x.tell (.command method params))))
    (hQ : Q (x.reply method params) (x.tell (.command method params))) :
    Prompt (recording P patience) W Q (command method params).outcome x := by
  have hjobs : ((recording P patience).answer (.command method params) x).2.2 = [] := by
    show List.map _ (World.heard x.1 (P.command method params x.1.peer).2.1) = []
    rw [hP.events]
    unfold World.heard
    split <;> rfl
  have hend : Prompt (recording P patience) W Q
      (Action.ofExcept (x.reply method params)).outcome (x.tell (.command method params)) :=
    prompt_ofExcept.mpr hQ
  unfold command
  refine Activity.prompt_ask.mpr ⟨hjobs, ?_⟩
  by_cases hdelay : (P.command method params x.1.peer).1.delay > 0
  · exact (congrArg (fun a => Prompt (recording P patience) W Q (Action.outcome a)
      (x.tell (.command method params))) (if_pos hdelay)).mpr
        (prompt_sleep (hP.delay _ _ _ hdelay) hend)
  · exact (congrArg (fun a => Prompt (recording P patience) W Q (Action.outcome a)
      (x.tell (.command method params))) (if_neg hdelay)).mpr hend

/-- A command whose failure may make the program forget what it knew. -/
theorem prompt_send {Q : Except Error Json → Recorded P → Prop} {method : String} {params : Json}
    (hP : P.Quiet (W (x.tell (.command method params))))
    (hok : ∀ reply, x.reply method params = .ok reply → Q (.ok reply) (x.tell (.command method params)))
    (herror : ∀ e, x.reply method params = .error e →
      Q (.error e) (x.tell (.command method params)) ∧
        Q (.error e) ((x.tell (.command method params)).tell .forget)) :
    Prompt (recording P patience) W Q (send method params).outcome x := by
  unfold send
  refine prompt_attempt.mpr (prompt_command hP ?_)
  rcases hreply : x.reply method params with e | reply
  · obtain ⟨hkept, hforgot⟩ := herror e hreply
    dsimp only
    split
    · exact (prompt_ask rfl).mpr hforgot
    · exact hkept
  · exact hok reply hreply

/-! ### Keeping the account -/

/-- Whoever begins the action with such charges ends it with charges that go with its outcome,
and those of others stay as they are. -/
def Conserves (P : Peer) (patience : Nat) (waits : Prop) (m : Multiset Charge) (a : side.Action α)
    (after : Except Error α → Multiset Charge) : Prop :=
  ∀ (x : Recorded P) rest, Owes x (m + rest) →
    Prompt (recording P patience) (fun _ => waits) (fun r y => Owes y (after r + rest)) a.outcome x

namespace Conserves

variable {after : Except Error α → Multiset Charge} {a : side.Action α}

theorem pure {v : α} (h : after (.ok v) = m) : Conserves P patience waits m (Pure.pure v) after := by
  intro x rest hx
  rw [← h] at hx
  exact hx

theorem throw {e : Error} (h : after (.error e) = m) :
    Conserves P patience waits m (MonadExcept.throw e) after := by
  intro x rest hx
  rw [← h] at hx
  exact hx

theorem ofExcept {r : Except Error α} (h : after r = m) :
    Conserves P patience waits m (Action.ofExcept r) after := by
  intro x rest hx
  rw [← h] at hx
  exact prompt_ofExcept.mpr hx

theorem bind {f : α → side.Action β} {after' : Except Error β → Multiset Charge}
    (ha : Conserves P patience waits m a after)
    (hok : ∀ v, Conserves P patience waits (after (.ok v)) (f v) after')
    (herror : ∀ e, after' (.error e) = after (.error e)) :
    Conserves P patience waits m (a >>= f) after' := by
  intro x rest hx
  refine prompt_andThen.mpr ((ha x rest hx).mono fun r y hy => ?_)
  cases r with
  | ok v => exact hok v y rest hy
  | error e => exact (congrArg (fun g => Owes y (g + rest)) (herror e)).mpr hy

/-- What an action does not touch stays as it is. -/
theorem frame (ha : Conserves P patience waits m a after) (n : Multiset Charge) :
    Conserves P patience waits (m + n) a fun r => after r + n := by
  intro x rest hx
  rw [add_assoc] at hx
  refine (ha x (n + rest) hx).mono fun r y hy => ?_
  rwa [add_assoc]

theorem attempt {f : Except Error α → side.Action β} {after' : Except Error β → Multiset Charge}
    (ha : Conserves P patience waits m a after)
    (hf : ∀ r, Conserves P patience waits (after r) (f r) after') :
    Conserves P patience waits m (a.attempt >>= f) after' := by
  intro x rest hx
  exact prompt_attempt.mpr ((ha x rest hx).mono fun r y hy => hf r y rest hy)

theorem ask {q : Query} {f : q.Answer → side.Action β} {after : Except Error β → Multiset Charge}
    (hidle : q.isIdle = true) (hquiet : q.isQuiet = true)
    (hf : ∀ a, Conserves P patience waits m (f a) after) :
    Conserves P patience waits m (Remote.ask q >>= f) after := by
  intro x rest hx
  exact (prompt_ask hquiet).mpr (hf _ _ rest (hx.idle hidle))

end Conserves

/-- Whoever begins the action with such charges ends it with a value, and with the charges that go
with it. -/
def Yields (P : Peer) (patience : Nat) (waits : Prop) (m : Multiset Charge) (a : side.Action α)
    (after : α → Multiset Charge) : Prop :=
  ∀ (x : Recorded P) rest, Owes x (m + rest) →
    Prompt (recording P patience) (fun _ => waits)
      (fun r y => ∃ v, r = .ok v ∧ Owes y (after v + rest)) a.outcome x

namespace Yields

variable {after : α → Multiset Charge} {a : side.Action α} {n : Multiset Charge}

theorem pure {v : α} (h : after v = m) : Yields P patience waits m (Pure.pure v) after := by
  intro x rest hx
  rw [← h] at hx
  exact ⟨v, rfl, hx⟩

/-- Other charges stay, and go with what follows. -/
theorem bind {f : α → side.Action β} {after' : β → Multiset Charge}
    (ha : Yields P patience waits m a after)
    (hf : ∀ v, Yields P patience waits (after v + n) (f v) after') :
    Yields P patience waits (m + n) (a >>= f) after' := by
  intro x rest hx
  rw [add_assoc] at hx
  refine (ha x (n + rest) hx).andThen fun v y hy => ?_
  rw [← add_assoc] at hy
  exact hf v y rest hy

theorem bindConserves {f : α → side.Action β} {after' : Except Error β → Multiset Charge}
    (ha : Yields P patience waits m a after)
    (hf : ∀ v, Conserves P patience waits (after v + n) (f v) after') :
    Conserves P patience waits (m + n) (a >>= f) after' := by
  intro x rest hx
  rw [add_assoc] at hx
  refine (ha x (n + rest) hx).andThen fun v y hy => ?_
  rw [← add_assoc] at hy
  exact hf v y rest hy

theorem conserves {after' : Except Error α → Multiset Charge}
    (ha : Yields P patience waits m a after) (hafter : ∀ v, after' (.ok v) = after v) :
    Conserves P patience waits m a after' := by
  intro x rest hx
  refine (ha x rest hx).mono ?_
  rintro r y ⟨v, rfl, hy⟩
  exact (congrArg (fun g => Owes y (g + rest)) (hafter v)).mpr hy

end Yields

/-- The action, begun without charges, ends without. -/
abbrev Idle (P : Peer) (patience : Nat) (waits : Prop) (a : side.Action α) : Prop :=
  Conserves P patience waits 0 a fun _ => 0

theorem Idle.bind {a : side.Action α} {f : α → side.Action β} (ha : Idle P patience waits a)
    (hf : ∀ v, Idle P patience waits (f v)) : Idle P patience waits (a >>= f) :=
  Conserves.bind ha hf fun _ => rfl

theorem Idle.bindThen {a : side.Action α} {f : α → side.Action β} {after : Except Error β → Multiset Charge}
    (ha : Idle P patience waits a) (hf : ∀ v, Conserves P patience waits 0 (f v) after)
    (herror : ∀ e, after (.error e) = 0) : Conserves P patience waits 0 (a >>= f) after :=
  Conserves.bind ha hf herror

theorem idle_pure (v : α) : Idle P patience waits (pure v) := .pure rfl

theorem idle_ofExcept (r : Except Error α) : Idle P patience waits (Action.ofExcept r) := .ofExcept rfl

theorem idle_read (reader : Json.Reader α) (reply : Json) : Idle P patience waits (read reader reply) := by
  unfold read
  split
  · exact .pure rfl
  · exact .throw rfl

theorem idle_mapM {f : α → side.Action β} (hf : ∀ v, Idle P patience waits (f v)) (vs : List α) :
    Idle P patience waits (vs.mapM f) := by
  induction vs with
  | nil => exact idle_pure []
  | cons v rest ih =>
    rw [List.mapM_cons]
    exact (hf v).bind fun b => ih.bind fun bs => idle_pure _

theorem idle_forM {f : α → side.Action PUnit} (hf : ∀ v, Idle P patience waits (f v)) (vs : List α) :
    Idle P patience waits (vs.forM f) := by
  induction vs with
  | nil => exact idle_pure ()
  | cons v rest ih => exact (hf v).bind fun _ => ih

/-- A command whose failure may make the program forget what it knew does to the account what the
command does. -/
theorem conserves_send {method : String} {params : Json} {after : Except Error Json → Multiset Charge}
    (h : Conserves P patience waits m (command method params) after) :
    Conserves P patience waits m (send method params) after := by
  refine Conserves.attempt h fun r => ?_
  cases r with
  | ok reply => exact .pure rfl
  | error e =>
    dsimp only
    split
    · exact Conserves.ask rfl rfl fun _ => .throw rfl
    · exact .throw rfl

/-! ### Releasing -/

/-- The question is one that releasing a handle asks. -/
def Query.isRelease : Query → Bool
  | dispose _ | forget => true
  | command method _ => method == "Runtime.releaseObject"
  | _ => false

section Releasing

variable {K : Recorded P → Prop} (hK : ∀ y q, q.isRelease = true → K y → K (y.tell q))
  (hP : ∀ y, Owes y rest → K y → P.Quiet (W y))
include hK hP

/-- The page is told to release a reference, whatever comes of it. -/
theorem prompt_release {id : String} {c : Charge} (hmark : c.mark = 0) (hown : c.own = 0) (href : c.ref = {id})
    (hx : Owes x ({c} + rest)) (hkx : K x) :
    Prompt (recording P patience) W (fun _ y => Owes y rest ∧ K y)
      (send "Runtime.releaseObject" (params [("objectId", .string id)])).outcome x := by
  have hreleased : Instant.released (P := P) ⟨x.1, .command "Runtime.releaseObject"
      (params [("objectId", .string id)])⟩ = {id} := rfl
  have hnone : Instant.given ⟨x.1, .command "Runtime.releaseObject"
      (params [("objectId", .string id)])⟩ = 0 := by
    rcases hreply : x.reply "Runtime.releaseObject" (params [("objectId", .string id)]) with e | reply
    · exact Instant.given_error hreply
    · rw [Instant.given_ok hreply]
      rfl
  have hafter : Owes (x.tell (.command "Runtime.releaseObject" (params [("objectId", .string id)])))
      rest := by
    refine hx.command ?_ ?_ ?_ ?_
    · simp [marks, hmark]
    · simp [owned, hown]
    · rw [hnone, hreleased, refs_add, zero_add, ← href]
      simp [refs]
    · rw [hnone, frees_add, zero_add]
      exact Multiset.le_add_left _ _
  have hkept := hK _ (.command "Runtime.releaseObject" (params [("objectId", .string id)])) rfl hkx
  exact prompt_send (hP _ hafter hkept) (fun _ _ => ⟨hafter, hkept⟩)
    fun _ _ => ⟨⟨hafter, hkept⟩, hafter.idle rfl, hK _ .forget rfl hkept⟩

/-- To dispose a handle is to release what it stands for. -/
theorem prompt_dispose {h : Handle} (hx : Owes x (h.charge + rest)) (hkx : K x) :
    Prompt (recording P patience) W (fun _ y => Owes y rest ∧ K y) h.dispose.outcome x := by
  have hfirst : (x.1.answer (.dispose h)).1 = true := by
    show (!x.1.isDisposed h) = true
    rw [hx.isDisposed (by simp)]
    rfl
  have hfreed := hx.dispose
  have hkept := hK x (.dispose h) rfl hkx
  unfold Handle.dispose
  refine (prompt_ask rfl).mpr ?_
  rw [hfirst, if_pos rfl]
  rcases hid : h.remote.objectId with _ | id
  · rw [show h.freed = 0 by simp [Handle.freed, hid], zero_add] at hfreed
    exact ⟨hfreed, hkept⟩
  · rw [show h.freed = {.freed id} by simp [Handle.freed, hid]] at hfreed
    refine prompt_andThen.mpr ((prompt_release hK hP rfl rfl rfl hfreed hkept).mono fun r y hy => ?_)
    cases r <;> exact hy

end Releasing

/-! ### Charges of outcomes -/

/-- The charges of the references in what came of a command. -/
def handedOver (method : String) (params : Json) : Except Error Json → Multiset Charge
  | .ok reply => (referencesIn method params reply).map Charge.loose
  | .error _ => 0

/-- The charge of what a call gave. -/
def looseOf : Except Error RemoteObject → Multiset Charge
  | .ok r => loose r
  | .error _ => 0

/-- The charge of the handle in an outcome. -/
def chargeOf : Except Error Handle → Multiset Charge
  | .ok h => h.charge
  | .error _ => 0

/-- The charges of handles. -/
def charges (hs : List Handle) : Multiset Charge := (hs.map Handle.charge).sum

@[simp] theorem charges_nil : charges [] = 0 := rfl

@[simp] theorem charges_cons (h : Handle) (hs : List Handle) :
    charges (h :: hs) = h.charge + charges hs := by
  simp [charges]

@[simp] theorem charges_append (hs more : List Handle) : charges (hs ++ more) = charges hs + charges more := by
  simp [charges]

@[simp] theorem marks_charges (hs : List Handle) : marks (charges hs) = (hs.map Handle.id : List Nat) := by
  induction hs with
  | nil => rfl
  | cons h rest ih =>
    rw [charges_cons, marks_add, marks_charge, ih]
    rfl

@[simp] theorem refs_charges (hs : List Handle) :
    refs (charges hs) = (hs.map fun h => reference h.remote).sum := by
  induction hs with
  | nil => rfl
  | cons h rest ih => rw [charges_cons, refs_add, refs_charge, ih, List.map_cons, List.sum_cons]

/-- The charges of the handles in an outcome. -/
def chargesOf : Except Error (List Handle) → Multiset Charge
  | .ok hs => charges hs
  | .error _ => 0

theorem map_loose_reference (r : RemoteObject) : (reference r).map Charge.loose = loose r := by
  unfold reference loose
  cases r.objectId <;> rfl

theorem marks_map_loose (ids : Multiset String) : marks (ids.map Charge.loose) = 0 := by
  simp [marks, Multiset.bind_map, Charge.mark]

theorem owned_map_loose (ids : Multiset String) : owned (ids.map Charge.loose) = 0 := by
  simp [owned, Multiset.bind_map, Charge.own]

theorem refs_map_loose (ids : Multiset String) : refs (ids.map Charge.loose) = ids := by
  rw [refs, Multiset.bind_map]
  exact (Multiset.bind_singleton ids id).trans (Multiset.map_id ids)

theorem frees_map_loose (ids : Multiset String) : frees (ids.map Charge.loose) = ids := by
  rw [frees, Multiset.bind_map]
  exact (Multiset.bind_singleton ids id).trans (Multiset.map_id ids)

/-- A handle is made of a value that was handed over. -/
theorem yields_wrap (r : RemoteObject) : Yields P patience waits (loose r) (wrap r) Handle.charge := by
  intro x rest hx
  exact (prompt_ask (q := .wrap r) (f := fun h => Pure.pure (α := Handle) h) rfl).mpr
    ⟨(x.1.wrap r).1, rfl, hx.wrap⟩

theorem conserves_wrap (r : RemoteObject) : Conserves P patience waits (loose r) (wrap r) chargeOf :=
  (yields_wrap r).conserves fun _ => rfl

/-- What is read out of the reply to an evaluation by reference. -/
theorem conserves_evaluation {method : String} {params reply : Json}
    (hproperties : method ≠ "Runtime.getProperties") (hnode : method ≠ "DOM.resolveNode")
    (href : (params.member "returnByValue").bool? = some false)
    {f : RemoteObject → side.Action α} {after : Except Error α → Multiset Charge}
    (hf : ∀ r, Conserves P patience waits (loose r) (f r) after) (herror : ∀ e, after (.error e) = 0) :
    Conserves P patience waits ((referencesIn method params reply).map Charge.loose) (do
      let evaluation ← read Evaluation.reader reply
      match evaluation.exception with
      | some e => throw (thrown e)
      | none => f evaluation.result) after := by
  unfold referencesIn read
  rw [if_neg hproperties, if_neg hnode, if_pos href]
  rcases hread : Evaluation.reader.ofJson? reply with _ | ⟨result, exception⟩
  · exact .throw (herror _)
  · cases exception with
    | some e => exact .throw (herror _)
    | none =>
      show Conserves P patience waits ((reference result).map Charge.loose) (f result) after
      rw [map_loose_reference]
      exact hf result

section Quiet

variable (hP : P.Quiet waits)
include hP

theorem conserves_command {method : String} {params : Json}
    (hmethod : method ≠ "Runtime.releaseObject") :
    Conserves P patience waits 0 (command method params) (handedOver method params) := by
  intro x rest hx
  have hkept : Instant.released (P := P) ⟨x.1, .command method params⟩ = 0 := if_neg hmethod
  have hgiven : Instant.given ⟨x.1, .command method params⟩ =
      refs (handedOver method params (x.reply method params)) ∧
      marks (handedOver method params (x.reply method params)) = 0 ∧
      owned (handedOver method params (x.reply method params)) = 0 ∧
      frees (handedOver method params (x.reply method params)) =
        refs (handedOver method params (x.reply method params)) := by
    rcases hreply : x.reply method params with e | reply
    · exact ⟨Instant.given_error hreply, rfl, rfl, rfl⟩
    · exact ⟨(Instant.given_ok hreply).trans (refs_map_loose _).symm, marks_map_loose _,
        owned_map_loose _, (frees_map_loose _).trans (refs_map_loose _).symm⟩
  refine prompt_command hP (hx.command ?_ ?_ ?_ ?_)
  · rw [marks_add, marks_add, hgiven.2.1]
    rfl
  · rw [owned_add, owned_add, hgiven.2.2.1]
    rfl
  · rw [hkept, hgiven.1, refs_add, refs_add]
    simp [refs]
  · rw [hgiven.1, frees_add, frees_add, hgiven.2.2.2]
    simp [frees]

theorem idle_command {method : String} {params : Json} (hmethod : method ≠ "Runtime.releaseObject")
    (hgiven : ∀ reply, referencesIn method params reply = 0) :
    Idle P patience waits (command method params) := by
  have hnone : handedOver method params = fun _ => 0 := by
    funext r
    cases r with
    | ok reply => exact congrArg (Multiset.map Charge.loose) (hgiven reply)
    | error e => rfl
  have h : Conserves P patience waits 0 (command method params) (handedOver method params) :=
    conserves_command hP hmethod
  rwa [hnone] at h

theorem idle_send {method : String} {params : Json} (hmethod : method ≠ "Runtime.releaseObject")
    (hgiven : ∀ reply, referencesIn method params reply = 0) :
    Idle P patience waits (send method params) :=
  conserves_send (idle_command hP hmethod hgiven)

/-! ### Calls -/

theorem idle_globalId : Idle P patience waits globalId := by
  refine Conserves.ask rfl rfl fun known => ?_
  cases known with
  | some id => exact .pure rfl
  | none =>
    refine (idle_command hP (by decide) fun _ => rfl).bind fun reply =>
      (idle_read _ reply).bind fun evaluation => ?_
    split
    · exact .throw rfl
    · exact Conserves.ask rfl rfl fun _ => .pure rfl

/-- A call by reference brings the reference in its reply. -/
theorem conserves_callFunction (script : String) (arguments : List Json) :
    Conserves P patience waits 0 (callFunction script arguments false) looseOf := by
  refine (idle_globalId hP).bindThen (fun id => ?_) fun _ => rfl
  refine (conserves_send (conserves_command hP (by decide))).bind (fun reply => ?_) fun _ => rfl
  exact conserves_evaluation (by decide) (by decide) rfl (fun r => .pure rfl) fun _ => rfl

/-- A call by value brings nothing. -/
theorem idle_callFunction (script : String) (arguments : List Json) :
    Idle P patience waits (callFunction script arguments true) := by
  refine (idle_globalId hP).bind fun id => (idle_send hP (by decide) fun _ => rfl).bind fun reply =>
    (idle_read _ reply).bind fun evaluation => ?_
  split
  · exact .throw rfl
  · exact .pure rfl

end Quiet

theorem idle_handleArgument (h : Handle) : Idle P patience waits (handleArgument h) := by
  refine Conserves.ask rfl rfl fun (disposed : Bool) => ?_
  cases disposed with
  | true =>
    refine Idle.bind (.throw rfl) fun _ => ?_
    cases h.remote.objectId <;> exact .pure rfl
  | false => cases h.remote.objectId <;> exact .pure rfl

theorem idle_callArgument (arg : Argument Handle) : Idle P patience waits (callArgument arg) := by
  cases arg with
  | value v => exact .pure rfl
  | undefined => exact .pure rfl
  | handle h => exact idle_handleArgument h

section Quiet

variable (hP : P.Quiet waits)
include hP

/-- The utility bundle is the world's own. -/
theorem idle_utility : Idle P patience waits utility := by
  refine Conserves.ask rfl rfl fun known => ?_
  cases known with
  | some h => exact .pure rfl
  | none =>
    refine Conserves.ask rfl rfl fun source => ?_
    refine (conserves_command hP (by decide)).bind (fun reply => ?_) fun _ => rfl
    refine conserves_evaluation (f := fun r => do
      let h ← Remote.wrap r
      let () ← Remote.ask (.rememberUtility h)
      return h) (by decide) (by decide) rfl (fun r => ?_) fun _ => rfl
    refine (conserves_wrap r).bind (fun h => ?_) fun _ => rfl
    intro x rest hx
    exact (prompt_ask rfl).mpr (show Owes _ (0 + rest) by rw [zero_add]; exact hx.remember)

/-! ### Handles -/

theorem idle_invoke (h : Handle) (script : String) (args : List (Argument Handle)) :
    Idle P patience waits (h.invoke script args true) :=
  (idle_handleArgument h).bind fun this => (idle_mapM idle_callArgument args).bind fun arguments =>
    idle_callFunction hP script (this :: arguments)

theorem idle_evaluate (h : Handle) (script : String) (args : List (Argument Handle)) :
    Idle P patience waits (h.evaluate script args) :=
  (idle_invoke hP h script args).bind fun _ => idle_pure _

theorem conserves_evaluateHandle (h : Handle) (script : String) (args : List (Argument Handle)) :
    Conserves P patience waits 0 (h.evaluateHandle script args) chargeOf := by
  have hinvoke : Conserves P patience waits 0 (h.invoke script args false) looseOf :=
    (idle_handleArgument h).bindThen (fun this => (idle_mapM idle_callArgument args).bindThen
      (fun arguments => conserves_callFunction hP script (this :: arguments)) fun _ => rfl) fun _ => rfl
  exact hinvoke.bind conserves_wrap fun _ => rfl

theorem conserves_dispose (h : Handle) : Conserves P patience waits h.charge h.dispose fun _ => 0 := by
  intro x rest hx
  simp only [zero_add]
  exact (prompt_dispose (K := fun _ => True) (fun _ _ _ _ => trivial) (fun _ _ _ => hP) hx trivial).mono
    fun _ _ hy => hy.1

/-- A result that is of no use is released at once. -/
theorem conserves_releaseResult (r : RemoteObject) :
    Conserves P patience waits (loose r) (releaseResult r) fun _ => 0 := by
  unfold releaseResult loose
  rcases r.objectId with _ | id
  · exact .pure rfl
  · have hrelease : Conserves P patience waits {.loose id}
        (send "Runtime.releaseObject" (params [("objectId", .string id)])) fun _ => 0 := by
      intro x rest hx
      simp only [zero_add]
      exact (prompt_release (K := fun _ => True) (fun _ _ _ _ => trivial) (fun _ _ _ => hP) rfl rfl rfl hx
        trivial).mono fun _ _ hy => hy.1
    exact hrelease.attempt fun _ => .pure rfl

theorem idle_jsonValue (h : Handle) : Idle P patience waits h.jsonValue := by
  unfold Handle.jsonValue
  split
  · exact .pure rfl
  · exact idle_evaluate hP h _ _

end Quiet

end Wayfind.Remote
