/-
What actions end with, whatever the worlds are that they find.

An action `Concludes` when it has asked so much and ended so; what it asked and what it ended with is
read off it, part by part.  An action `Achieves` something when it ends with a value wherever all of its
commands succeed: a command succeeds when its reply says what the command was sent for.  And one that waits
for nothing but time `Finishes`, whatever it is told on the way.
-/
import Wayfind.Proofs.Remote.Settlement

namespace Wayfind.Remote

open Activity (Asks Ends Walk asks_andThen)
open PageSide (Action)
open Protocol (RemoteObject Property Evaluation)

variable {P : Peer} {patience : Nat} {α β : Type}

/-! ### How actions conclude -/

/-- The action asks this of the worlds it finds, and ends so. -/
def Concludes (P : Peer) (patience : Nat) (a : side.Action α) (record : List (Instant P))
    (r : Except Error α) : Prop :=
  Ends (backend P patience) a.outcome record r

namespace Concludes

variable {a : side.Action α} {record : List (Instant P)} {r : Except Error β}

theorem calm {r : Except Error α} (h : Concludes P patience a record r)
    (ha : Asks IsCalm a.outcome) : settlements record = [] :=
  List.filterMap_eq_nil_iff.mpr fun m hm => h.asked_of_asks ha m hm

theorem andThen {f : α → side.Action β} (h : Concludes P patience (a >>= f) record r) :
    (∃ e, r = .error e ∧ Concludes P patience a record (.error e)) ∨
      ∃ (first second : List (Instant P)) (v : α), record = first ++ second ∧
        Concludes P patience a first (.ok v) ∧ Concludes P patience (f v) second r :=
  Activity.ends_andThen h

theorem attempt {f : Except Error α → side.Action β}
    (h : Concludes P patience (a.attempt >>= f) record r) :
    ∃ (first second : List (Instant P)) (o : Except Error α), record = first ++ second ∧
      Concludes P patience a first o ∧ Concludes P patience (f o) second r :=
  Activity.ends_attempt h

theorem ask {q : Query} {f : q.Answer → side.Action β} (h : Concludes P patience (Remote.ask q >>= f) record r) :
    ∃ (w : World P) (rest : List (Instant P)), record = ⟨w, q⟩ :: rest ∧
      Concludes P patience (f (w.answer q).1) rest r :=
  Activity.ends_ask (P := side) h

theorem ofPure {v : α} {r : Except Error α} (h : Concludes P patience (pure v) record r) :
    record = [] ∧ r = .ok v := (Activity.ends_done h).imp_right Eq.symm

theorem ofThrow {e : Error} {r : Except Error α}
    (h : Concludes P patience (MonadExcept.throw e) record r) : record = [] ∧ r = .error e :=
  (Activity.ends_done h).imp_right Eq.symm

theorem ofExcept {o r : Except Error α} (h : Concludes P patience (Action.ofExcept o) record r) :
    record = [] ∧ r = o := (Activity.ends_ofExcept h).imp_right Eq.symm

theorem andThen_iff {f : α → side.Action β} :
    Concludes P patience (a >>= f) record r ↔
      (∃ e, r = .error e ∧ Concludes P patience a record (.error e)) ∨
        ∃ (first second : List (Instant P)) (v : α), record = first ++ second ∧
          Concludes P patience a first (.ok v) ∧ Concludes P patience (f v) second r :=
  Activity.ends_andThen_iff

theorem attempt_iff {f : Except Error α → side.Action β} :
    Concludes P patience (a.attempt >>= f) record r ↔
      ∃ (first second : List (Instant P)) (o : Except Error α), record = first ++ second ∧
        Concludes P patience a first o ∧ Concludes P patience (f o) second r :=
  Activity.ends_lift_iff

theorem ask_iff {q : Query} {f : q.Answer → side.Action β} :
    Concludes P patience (Remote.ask q >>= f) record r ↔
      ∃ (w : World P) (rest : List (Instant P)), record = ⟨w, q⟩ :: rest ∧
        Concludes P patience (f (w.answer q).1) rest r := by
  refine ⟨ask, ?_⟩
  rintro ⟨w, rest, rfl, h⟩
  exact Activity.ends_lift_iff.2 ⟨[⟨w, q⟩], rest, _, rfl, Activity.ends_query_iff.2 ⟨w, rfl, rfl⟩, h⟩

theorem pure_iff {v : α} {r : Except Error α} :
    Concludes P patience (pure v) record r ↔ record = [] ∧ r = .ok v :=
  Activity.ends_done_iff.trans (and_congr_right fun _ => eq_comm)

theorem throw_iff {e : Error} {r : Except Error α} :
    Concludes P patience (MonadExcept.throw e) record r ↔ record = [] ∧ r = .error e :=
  Activity.ends_done_iff.trans (and_congr_right fun _ => eq_comm)

theorem ofExcept_iff {o r : Except Error α} :
    Concludes P patience (Action.ofExcept o) record r ↔ record = [] ∧ r = o := by
  unfold Concludes
  rw [outcome_ofExcept]
  exact Activity.ends_done_iff.trans (and_congr_right fun _ => eq_comm)

/-- A result, worked on when there is one. -/
theorem map_iff {f : α → β} :
    Concludes P patience (a >>= fun v => pure (f v)) record r ↔ ∃ o, Concludes P patience a record o ∧ r = o.map f := by
  rw [andThen_iff]
  constructor
  · rintro (⟨e, rfl, h⟩ | ⟨first, second, v, rfl, hfirst, hsecond⟩)
    · exact ⟨_, h, rfl⟩
    · obtain ⟨rfl, rfl⟩ := hsecond.ofPure
      rw [List.append_nil]
      exact ⟨_, hfirst, rfl⟩
  · rintro ⟨o, h, rfl⟩
    cases o with
    | error e => exact Or.inl ⟨e, rfl, h⟩
    | ok v => exact Or.inr ⟨record, [], v, (List.append_nil _).symm, h, pure_iff.2 ⟨rfl, rfl⟩⟩

end Concludes

/-- What comes of a command in such a world. -/
def outcomeIn (w : World P) (method : String) (doc : Json) : Except Error Json :=
  (P.command method doc w.peer).1.outcome

theorem concludes_command {method : String} {doc : Json} {record : List (Instant P)} {r : Except Error Json}
    (h : Concludes P patience (command method doc) record r) :
    ∃ w, record = [⟨w, .command method doc⟩] ∧ r = outcomeIn w method doc := by
  obtain ⟨w, rest, rfl, hrest⟩ := h.ask
  dsimp only at hrest
  split at hrest
  · obtain ⟨first, second, u, rfl, hfirst, hsecond⟩ := Activity.ends_lift hrest
    obtain rfl := Activity.ends_sleep hfirst
    obtain ⟨rfl, rfl⟩ := Concludes.ofExcept hsecond
    exact ⟨w, rfl, rfl⟩
  · obtain ⟨rfl, rfl⟩ := hrest.ofExcept
    exact ⟨w, rfl, rfl⟩

theorem concludes_command_iff {method : String} {doc : Json} {record : List (Instant P)}
    {r : Except Error Json} :
    Concludes P patience (command method doc) record r ↔
      ∃ w, record = [⟨w, .command method doc⟩] ∧ r = outcomeIn w method doc := by
  refine ⟨concludes_command, ?_⟩
  rintro ⟨w, rfl, rfl⟩
  refine Concludes.ask_iff.2 ⟨w, [], rfl, ?_⟩
  have houtcome : Concludes P patience (Action.ofExcept (outcomeIn w method doc)) [] (outcomeIn w method doc) :=
    Concludes.ofExcept_iff.2 ⟨rfl, rfl⟩
  dsimp only
  split
  · exact Activity.ends_lift_iff.2 ⟨[], [], (), rfl, Activity.ends_sleep_of w _, houtcome⟩
  · exact houtcome

/-- Of a command that succeeds, nothing is forgotten. -/
theorem concludes_send {method : String} {doc : Json} {record : List (Instant P)} {r : Except Error Json}
    (h : Concludes P patience (send method doc) record r) :
    ∃ w rest, record = ⟨w, .command method doc⟩ :: rest ∧ r = outcomeIn w method doc ∧
      settlements rest = [] := by
  obtain ⟨first, rest, o, rfl, hfirst, hrest⟩ := h.attempt
  obtain ⟨w, rfl, rfl⟩ := concludes_command hfirst
  refine ⟨w, rest, rfl, ?_⟩
  cases houtcome : outcomeIn w method doc with
  | ok reply =>
    rw [houtcome] at hrest
    obtain ⟨rfl, rfl⟩ := hrest.ofPure
    exact ⟨rfl, rfl⟩
  | error e =>
    rw [houtcome] at hrest
    dsimp only at hrest
    split at hrest
    · obtain ⟨v, last, rfl, hlast⟩ := hrest.ask
      obtain ⟨rfl, rfl⟩ := hlast.ofThrow
      exact ⟨rfl, rfl⟩
    · obtain ⟨rfl, rfl⟩ := hrest.ofThrow
      exact ⟨rfl, rfl⟩

/-- What comes of a command that is sent. -/
inductive Sent (method : String) (doc : Json) : List (Instant P) → Except Error Json → Prop
  | replied {w : World P} {reply : Json} (h : outcomeIn w method doc = .ok reply) :
      Sent method doc [⟨w, .command method doc⟩] (.ok reply)
  | refused {w : World P} {e : Error} (h : outcomeIn w method doc = .error e) (halive : isStale e = false) :
      Sent method doc [⟨w, .command method doc⟩] (.error e)
  /-- An error that tells of a dead script context makes the program forget it. -/
  | severed {w v : World P} {e : Error} (h : outcomeIn w method doc = .error e) (hdead : isStale e = true) :
      Sent method doc [⟨w, .command method doc⟩, ⟨v, .forget⟩] (.error e)

theorem concludes_send_iff {method : String} {doc : Json} {record : List (Instant P)} {r : Except Error Json} :
    Concludes P patience (send method doc) record r ↔ Sent method doc record r := by
  unfold send
  rw [Concludes.attempt_iff]
  constructor
  · rintro ⟨first, second, o, rfl, hfirst, hsecond⟩
    obtain ⟨w, rfl, rfl⟩ := concludes_command hfirst
    cases houtcome : outcomeIn w method doc with
    | ok reply =>
      rw [houtcome] at hsecond
      obtain ⟨rfl, rfl⟩ := hsecond.ofPure
      exact .replied houtcome
    | error e =>
      rw [houtcome] at hsecond
      dsimp only at hsecond
      split at hsecond
      · rename_i hdead
        obtain ⟨v, rest, rfl, hrest⟩ := hsecond.ask
        obtain ⟨rfl, rfl⟩ := hrest.ofThrow
        exact .severed houtcome hdead
      · rename_i halive
        obtain ⟨rfl, rfl⟩ := hsecond.ofThrow
        exact .refused houtcome (Bool.eq_false_iff.2 halive)
  · rintro (⟨h⟩ | ⟨h, halive⟩ | @⟨w, v, e, h, hdead⟩)
    · exact ⟨_, [], _, rfl, concludes_command_iff.2 ⟨_, rfl, h.symm⟩, Concludes.pure_iff.2 ⟨rfl, rfl⟩⟩
    · refine ⟨_, [], _, rfl, concludes_command_iff.2 ⟨_, rfl, h.symm⟩, ?_⟩
      dsimp only
      rw [if_neg (Bool.eq_false_iff.1 halive)]
      exact Concludes.throw_iff.2 ⟨rfl, rfl⟩
    · refine ⟨[_], [⟨v, .forget⟩], _, rfl, concludes_command_iff.2 ⟨_, rfl, h.symm⟩, ?_⟩
      dsimp only
      rw [if_pos hdead]
      exact Concludes.ask_iff.2 ⟨v, [], rfl, Concludes.throw_iff.2 ⟨rfl, rfl⟩⟩

theorem concludes_read_iff {reader : Json.Reader α} {reply : Json} {record : List (Instant P)}
    {r : Except Error α} :
    Concludes P patience (read reader reply) record r ↔
      record = [] ∧ ((∃ v, reader.ofJson? reply = some v ∧ r = .ok v) ∨
        reader.ofJson? reply = none ∧ r = .error (.serialization "an unexpected reply")) := by
  unfold read
  cases reader.ofJson? reply with
  | some v => simpa using Concludes.pure_iff
  | none => simpa using Concludes.throw_iff

/-! ### When commands succeed -/

/-- The reply says what such a command is sent for: the result of an evaluation, which is a reference
where the value itself was not asked for, or the properties of an object. -/
def IsReply (method : String) (doc reply : Json) : Prop :=
  if method = "Runtime.evaluate" ∨ method = "Runtime.callFunctionOn" then
    ∃ result, Evaluation.reader.ofJson? reply = some ⟨result, none⟩ ∧
      ((doc.member "returnByValue").bool? = some true ∨ result.objectId.isSome = true)
  else if method = "Runtime.getProperties" then
    ∃ properties, Property.listReader.ofJson? reply = some properties
  else True

/-- If it is a command, it succeeds. -/
def Instant.Succeeds : Instant P → Prop
  | ⟨w, .command method doc⟩ => ∃ reply, outcomeIn w method doc = .ok reply ∧ IsReply method doc reply
  | _ => True

/-- Every command succeeds. -/
def Succeed (record : List (Instant P)) : Prop := ∀ m ∈ record, m.Succeeds

theorem succeed_cons {m : Instant P} {rest : List (Instant P)} :
    Succeed (m :: rest) ↔ m.Succeeds ∧ Succeed rest := List.forall_mem_cons

theorem succeed_append {first second : List (Instant P)} :
    Succeed (first ++ second) ↔ Succeed first ∧ Succeed second := List.forall_mem_append

/-- Where its commands succeed the action ends with a value, which goes with what it asked. -/
def Achieves (P : Peer) (patience : Nat) (a : side.Action α) (R : α → List (Instant P) → Prop) : Prop :=
  ∀ record r, Succeed record → Concludes P patience a record r → ∃ v, r = .ok v ∧ R v record

namespace Achieves

variable {a : side.Action α} {R : α → List (Instant P) → Prop} {R' : β → List (Instant P) → Prop}

theorem pure {v : α} (h : R v []) : Achieves P patience (pure v) R := by
  intro record r _ hconcludes
  obtain ⟨rfl, rfl⟩ := hconcludes.ofPure
  exact ⟨v, rfl, h⟩

theorem bind {f : α → side.Action β} (ha : Achieves P patience a R)
    (hf : ∀ v first, R v first → Achieves P patience (f v) fun b second => R' b (first ++ second)) :
    Achieves P patience (a >>= f) R' := by
  intro record r hok hconcludes
  rcases hconcludes.andThen with ⟨e, rfl, hfailed⟩ | ⟨first, second, v, rfl, hfirst, hsecond⟩
  · obtain ⟨v, hv, -⟩ := ha record _ hok hfailed
    exact absurd hv nofun
  · obtain ⟨hokFirst, hokSecond⟩ := succeed_append.mp hok
    obtain ⟨v', hv, hR⟩ := ha first _ hokFirst hfirst
    obtain rfl : v = v' := Except.ok.inj hv
    exact hf v first hR second r hokSecond hsecond

theorem attempt {f : Except Error α → side.Action β} (ha : Achieves P patience a R)
    (hf : ∀ v first, R v first → Achieves P patience (f (.ok v)) fun b second => R' b (first ++ second)) :
    Achieves P patience (a.attempt >>= f) R' := by
  intro record r hok hconcludes
  obtain ⟨first, second, o, rfl, hfirst, hsecond⟩ := hconcludes.attempt
  obtain ⟨hokFirst, hokSecond⟩ := succeed_append.mp hok
  obtain ⟨v, rfl, hR⟩ := ha first _ hokFirst hfirst
  exact hf v first hR second r hokSecond hsecond

theorem ask {q : Query} {f : q.Answer → side.Action β}
    (hf : ∀ w : World P, Achieves P patience (f (w.answer q).1) fun b rest => R' b (⟨w, q⟩ :: rest)) :
    Achieves P patience (Remote.ask q >>= f) R' := by
  intro record r hok hconcludes
  obtain ⟨w, rest, rfl, hrest⟩ := hconcludes.ask
  exact hf w rest r (succeed_cons.mp hok).2 hrest

theorem mono {R' : α → List (Instant P) → Prop} (ha : Achieves P patience a R)
    (h : ∀ v record, R v record → R' v record) : Achieves P patience a R' := by
  intro record r hok hconcludes
  obtain ⟨v, hv, hR⟩ := ha record r hok hconcludes
  exact ⟨v, hv, h v record hR⟩

theorem calm (ha : Achieves P patience a R) (hcalm : Asks IsCalm a.outcome) :
    Achieves P patience a fun v record => R v record ∧ settlements record = [] := by
  intro record r hok hconcludes
  obtain ⟨v, hv, hR⟩ := ha record r hok hconcludes
  exact ⟨v, hv, hR, hconcludes.calm hcalm⟩

theorem mapM {γ : Type} {f : γ → side.Action β} {Q : β → List (Instant P) → Prop}
    (hf : ∀ c, Achieves P patience (f c) Q)
    (hQ : ∀ b first second, Q b first → Q b (first ++ second))
    (hQ' : ∀ b first second, Q b second → Q b (first ++ second)) (cs : List γ) :
    Achieves P patience (cs.mapM f) fun bs record => ∀ b ∈ bs, Q b record := by
  induction cs with
  | nil => exact .pure nofun
  | cons c rest ih =>
    rw [List.mapM_cons]
    refine (hf c).bind fun b first hb => ih.bind fun bs second hbs => .pure fun b' hb' => ?_
    rw [List.append_nil]
    rcases List.mem_cons.mp hb' with rfl | hrest
    · exact hQ _ _ _ hb
    · exact hQ' _ _ _ (hbs b' hrest)

end Achieves

theorem achieves_command (method : String) (doc : Json) :
    Achieves P patience (command method doc) fun reply record =>
      IsReply method doc reply ∧ ∃ w, record = [⟨w, .command method doc⟩] := by
  intro record r hok hconcludes
  obtain ⟨w, rfl, rfl⟩ := concludes_command hconcludes
  obtain ⟨reply, hreply, hisReply⟩ := hok _ (List.mem_singleton_self _)
  exact ⟨reply, hreply, hisReply, w, rfl⟩

theorem achieves_send (method : String) (doc : Json) :
    Achieves P patience (send method doc) fun reply record =>
      IsReply method doc reply ∧ ∃ w, record = [⟨w, .command method doc⟩] :=
  (achieves_command method doc).attempt fun reply first hreply => .pure (by rwa [List.append_nil])

theorem achieves_read {reader : Json.Reader α} {reply : Json} {v : α} (h : reader.ofJson? reply = some v) :
    Achieves P patience (read reader reply) fun v' record => v' = v ∧ record = [] := by
  unfold read
  rw [h]
  exact .pure ⟨rfl, rfl⟩

theorem achieves_globalId : Achieves P patience globalId fun _ _ => True := by
  refine .ask fun w => ?_
  cases (w.answer .global).1 with
  | some id => exact .pure trivial
  | none =>
    refine (achieves_command _ _).bind fun reply _ hreply => ?_
    obtain ⟨⟨result, hread, hvalue⟩, -⟩ := hreply
    refine (achieves_read hread).bind fun evaluation _ hevaluation => ?_
    obtain ⟨rfl, -⟩ := hevaluation
    obtain ⟨id, hid⟩ := Option.isSome_iff_exists.mp (hvalue.resolve_left nofun)
    dsimp only
    rw [hid]
    exact .ask fun _ => .pure trivial

/-- A page function is called, and has a result. -/
theorem achieves_callFunction (script : String) (arguments : List Json) (byValue : Bool) :
    Achieves P patience (callFunction script arguments byValue) fun result record =>
      settlements record = (Settlement.ofCall? script (.array arguments)).toList ∧
        (byValue = false → result.objectId.isSome = true) := by
  refine (achieves_globalId.calm (asks_globalId mild_calm.toPlain)).bind fun id first hfirst => ?_
  refine (achieves_send _ _).bind fun reply second hsecond => ?_
  obtain ⟨⟨result, hread, hvalue⟩, w, rfl⟩ := hsecond
  refine (achieves_read hread).bind fun evaluation third hevaluation => ?_
  obtain ⟨rfl, rfl⟩ := hevaluation
  refine .pure ⟨?_, fun hreference => hvalue.resolve_left ?_⟩
  · rw [settlements_append, hfirst.2, List.nil_append, List.nil_append, List.append_nil, settlements_cons,
      settlements_nil, List.append_nil]
    rfl
  · rw [hreference]
    nofun

/-- A call of a page function is sent once, or not at all. -/
theorem settlements_callFunction {script : String} {arguments : List Json} {byValue : Bool}
    {record : List (Instant P)} {r : Except Error RemoteObject}
    (h : Concludes P patience (callFunction script arguments byValue) record r) :
    settlements record = [] ∨ settlements record = (Settlement.ofCall? script (.array arguments)).toList := by
  have hsend : ∀ {id : String} {record : List (Instant P)} {o : Except Error Json},
      Concludes P patience (send "Runtime.callFunctionOn" (callParams script arguments byValue id)) record o →
      settlements record = (Settlement.ofCall? script (.array arguments)).toList := by
    intro id record o hsent
    obtain ⟨w, rest, rfl, -, hrest⟩ := concludes_send hsent
    rw [settlements_cons, hrest, List.append_nil]
    rfl
  rcases h.andThen with ⟨e, rfl, hfailed⟩ | ⟨first, second, id, rfl, hfirst, hsecond⟩
  · exact Or.inl (hfailed.calm (asks_globalId mild_calm.toPlain))
  · refine Or.inr ?_
    rw [settlements_append, hfirst.calm (asks_globalId mild_calm.toPlain), List.nil_append]
    rcases hsecond.andThen with ⟨e, rfl, hfailed⟩ | ⟨sent, rest, reply, rfl, hsent, hrest⟩
    · exact hsend hfailed
    · have hread : settlements rest = [] := by
        refine hrest.calm (asks_andThen (asks_read _ _) fun evaluation => ?_)
        cases evaluation.exception <;> trivial
      rw [settlements_append, hsend hsent, hread, List.append_nil]

/-- A page function is called to end a promise, and what follows ends none. -/
theorem settlements_callThen {script : String} {arguments : List Json} {byValue : Bool} {s : Settlement}
    (hs : Settlement.ofCall? script (.array arguments) = some s) {f : RemoteObject → side.Action Unit}
    (hf : ∀ v, Asks IsCalm (f v).outcome) {record : List (Instant P)} {r : Except Error Unit}
    (h : Concludes P patience (callFunction script arguments byValue >>= f) record r) :
    (settlements record = [] ∨ settlements record = [s]) ∧ (Succeed record → settlements record = [s]) := by
  have hsent : (Settlement.ofCall? script (.array arguments)).toList = [s] := congrArg Option.toList hs
  rcases h.andThen with ⟨e, rfl, hfailed⟩ | ⟨first, second, v, rfl, hfirst, hsecond⟩
  · refine ⟨hsent ▸ settlements_callFunction hfailed, fun hok => ?_⟩
    obtain ⟨v, hv, -⟩ := achieves_callFunction _ _ _ record _ hok hfailed
    exact absurd hv nofun
  · rw [settlements_append, hsecond.calm (hf v), List.append_nil]
    refine ⟨hsent ▸ settlements_callFunction hfirst, fun hok => ?_⟩
    obtain ⟨-, -, hcalled, -⟩ := achieves_callFunction _ _ _ first _ (succeed_append.mp hok).1 hfirst
    exact hcalled.trans hsent

/-! ### Handles -/

theorem concludes_wrap {remote : RemoteObject} {record : List (Instant P)} {r : Except Error Handle}
    (h : Concludes P patience (wrap remote) record r) :
    ∃ w : World P, record = [⟨w, .wrap remote⟩] ∧ r = .ok (w.wrap remote).1 := by
  obtain ⟨first, rest, handle, rfl, hfirst, hrest⟩ := Activity.ends_bind h
  obtain ⟨w, rfl, rfl⟩ := Activity.ends_query hfirst
  obtain ⟨rfl, rfl⟩ := Activity.ends_done hrest
  exact ⟨w, rfl, rfl⟩

theorem concludes_wrap_iff {remote : RemoteObject} {record : List (Instant P)} {r : Except Error Handle} :
    Concludes P patience (wrap remote) record r ↔
      ∃ w : World P, record = [⟨w, .wrap remote⟩] ∧ r = .ok (w.wrap remote).1 := by
  refine ⟨concludes_wrap, ?_⟩
  rintro ⟨w, rfl, rfl⟩
  exact Activity.ends_bind_iff.2 ⟨[⟨w, .wrap remote⟩], [], _, rfl, Activity.ends_query_iff.2 ⟨w, rfl, rfl⟩, .stays _⟩

/-- The handle was made. -/
def Made (record : List (Instant P)) (h : Handle) : Prop :=
  ∃ (w : World P) (remote : RemoteObject), (⟨w, .wrap remote⟩ : Instant P) ∈ record ∧ h = (w.wrap remote).1

namespace Made

variable {first second : List (Instant P)} {h : Handle}

theorem left (hmade : Made first h) : Made (first ++ second) h := by
  obtain ⟨w, remote, hmem, rfl⟩ := hmade
  exact ⟨w, remote, List.mem_append_left _ hmem, rfl⟩

theorem right (hmade : Made second h) : Made (first ++ second) h := by
  obtain ⟨w, remote, hmem, rfl⟩ := hmade
  exact ⟨w, remote, List.mem_append_right _ hmem, rfl⟩

end Made

theorem achieves_wrap (remote : RemoteObject) :
    Achieves P patience (wrap remote) fun h record => h.remote = remote ∧ Made record h := by
  intro record r _ hconcludes
  obtain ⟨w, rfl, rfl⟩ := concludes_wrap hconcludes
  exact ⟨_, rfl, rfl, w, remote, List.mem_singleton_self _, rfl⟩

theorem achieves_arrayItems {h : Handle} (href : h.remote.objectId.isSome = true) :
    Achieves P patience h.arrayItems fun hs record => ∀ h ∈ hs, Made record h := by
  obtain ⟨id, hid⟩ := Option.isSome_iff_exists.mp href
  have hreference : Achieves P patience (h.reference "Cannot list properties of a primitive")
      fun _ _ => True := by
    unfold Handle.reference
    rw [hid]
    exact .pure trivial
  refine hreference.bind fun object _ _ => (achieves_send _ _).bind fun reply _ hreply => ?_
  obtain ⟨⟨properties, hread⟩, -⟩ := hreply
  refine (achieves_read hread).bind fun _ _ _ => ?_
  refine (Achieves.mapM (Q := fun h record => Made record h) (fun item : Nat × RemoteObject =>
    (achieves_wrap item.2).mono fun _ _ h => h.2) (fun _ _ _ => Made.left) (fun _ _ _ => Made.right) _).mono ?_
  exact fun hs record hmade h hh => Made.right (Made.right (Made.right (hmade h hh)))

/-- The handle was disposed, now or before. -/
def Released (record : List (Instant P)) (h : Handle) : Prop :=
  ∃ w : World P, (⟨w, .dispose h⟩ : Instant P) ∈ record

theorem concludes_releaseIn {h : Handle} {record : List (Instant P)} {r : Except Error Unit}
    (hr : Concludes P patience ((realm patience).releaseIn h) record r) : r = .ok () ∧ Released record h := by
  obtain ⟨first, second, u, rfl, hrelease, hsecond⟩ := Activity.ends_bind hr
  obtain ⟨-, rfl⟩ := Activity.ends_done hsecond
  obtain ⟨dispose, third, o, rfl, hdispose, -⟩ := Activity.ends_bind hrelease
  obtain ⟨w, rest, rfl, -⟩ := Concludes.ask hdispose
  exact ⟨rfl, w, List.mem_append_left _ (List.mem_append_left _ List.mem_cons_self)⟩

theorem concludes_releases {hs : List Handle} {record : List (Instant P)} {r : Except Error Unit}
    (hr : Concludes P patience (hs.forM (realm patience).releaseIn) record r) :
    r = .ok () ∧ ∀ h ∈ hs, Released record h := by
  induction hs generalizing record with
  | nil => exact ⟨hr.ofPure.2, nofun⟩
  | cons h rest ih =>
    rcases Concludes.andThen hr with ⟨e, rfl, hfailed⟩ | ⟨first, second, u, rfl, hfirst, hsecond⟩
    · exact absurd (concludes_releaseIn hfailed).1 nofun
    · obtain ⟨-, w, hreleased⟩ := concludes_releaseIn hfirst
      obtain ⟨hok, hrest⟩ := ih hsecond
      refine ⟨hok, fun h' hh' => ?_⟩
      rcases List.mem_cons.mp hh' with rfl | hh'
      · exact ⟨w, List.mem_append_left _ hreleased⟩
      · obtain ⟨v, hv⟩ := hrest h' hh'
        exact ⟨v, List.mem_append_right _ hv⟩

/-- The arguments of a call are new handles. -/
theorem achieves_takeArguments (name : String) (call : Json) :
    Achieves P patience (takeArguments patience name call) fun hs record => ∀ h ∈ hs, Made record h := by
  refine (achieves_callFunction _ _ _).bind fun remote _ hremote => ?_
  refine (achieves_wrap remote).bind fun array _ harray => ?_
  have href : array.remote.objectId.isSome = true := by
    rw [harray.1]
    exact hremote.2 rfl
  refine (achieves_arrayItems href).attempt fun hs _ hhs => ?_
  have hrelease : Achieves P patience ((realm patience).releaseIn array) fun _ _ => True :=
    fun record r _ hconcludes => ⟨(), (concludes_releaseIn hconcludes).1, trivial⟩
  refine hrelease.bind fun _ _ _ => .pure fun h hh => ?_
  exact Made.right (Made.right (Made.left (hhs h hh)))

/-! ### Nobody is kept from the end -/

/-- However far it has come, it can come to an end. -/
def Finishes (P : Peer) (patience : Nat) (p : side.Task α) : Prop :=
  ∀ record q, Walk (backend P patience) p record q → ∃ more a, Ends (backend P patience) q more a

theorem finishes_of_asks (w : World P) {p : side.Task α} (hp : Asks Activity.Request.isPatient p) :
    Finishes P patience p := fun _ _ h => Activity.exists_ends (B := backend P patience) w (h.asks_of_asks hp)

end Wayfind.Remote
