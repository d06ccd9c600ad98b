/-
At which result a wait for a page function stops.

Whatever the peer does, and however long its commands take, a wait evaluates its function until a result
counts as true, and hands that result on (`StopsFirst`).  Results are read from replies, so the wait stops at
the first value that counts as true in the page, unless it is lost in its description; then the wait goes on
(`stops_of_answers`).
-/
import Wayfind.Proofs.Activity.Amid
import Wayfind.Proofs.Protocol.Truth
import Wayfind.Proofs.Remote.Asking
import Wayfind.Proofs.Remote.Clearing
import Wayfind.Proofs.Remote.Polling

namespace Wayfind.Remote

open Activity (Amid Asks Ends Request Walk asks_andThen asks_forM asks_mapM ends_andThen ends_attempt ends_lift
  ends_ofExcept walk_andThen walk_ask walk_attempt walk_done walk_ofExcept)
open PageSide (Action)
open Protocol (Answers RemoteObject Value Writes isTruthy_of_answers isTruthy_of_writes)

variable {P : Peer} {patience : Nat} {α β : Type} {script : String} {record : List (Instant P)}

/-! ### Evaluations in a record -/

/-- The results of the evaluations of a page function, one after another. -/
def results (script : String) (record : List (Instant P)) : List (Except Error RemoteObject) :=
  record.filterMap (resultAt? script)

@[simp] theorem results_append (first second : List (Instant P)) :
    results script (first ++ second) = results script first ++ results script second := List.filterMap_append

theorem results_none (h : ∀ m ∈ record, m.query.evaluates script = false) : results script record = [] :=
  List.filterMap_eq_nil_iff.mpr fun m hm => resultAt?_none (h m hm)

/-- The request does not evaluate the function. -/
def Passing (script : String) : Request side.signature → Prop
  | .query q => Query.evaluates script q = false
  | _ => True

theorem plain_passing (script : String) : Plain (Passing script) where
  clock := trivial
  sleepUntil _ := trivial
  plain q hq := by
    cases q with
    | command method doc => exact evaluates_command hq.1 doc
    | _ => rfl

theorem results_of_asks {p q : side.Task α} (h : Walk (backend P patience) p record q)
    (hp : Asks (Passing script) p) : results script record = [] :=
  results_none (h.asked_of_asks hp)

/-! ### How actions go -/

/-- The action asks this of the worlds it finds, and goes on so. -/
def Goes (P : Peer) (patience : Nat) (a : side.Action α) (record : List (Instant P))
    (q : side.Task (Except Error α)) : Prop :=
  Walk (backend P patience) a.outcome record q

namespace Goes

variable {a : side.Action α} {f : α → side.Action β} {q : side.Task (Except Error β)}

theorem results {q : side.Task (Except Error α)} (h : Goes P patience a record q)
    (ha : Asks (Passing script) a.outcome) : results script record = [] :=
  results_of_asks h ha

theorem andThen (h : Goes P patience (a >>= f) record q) :
    (∃ p, Goes P patience a record p ∧ (∀ o, p ≠ .done o) ∧ ∀ o, q ≠ .done o) ∨
      (∃ e, Concludes P patience a record (.error e) ∧ q = .done (.error e)) ∨
      ∃ (first second : List (Instant P)) (v : α), record = first ++ second ∧
        Concludes P patience a first (.ok v) ∧ Goes P patience (f v) second q :=
  walk_andThen h

theorem attempt {f : Except Error α → side.Action β} (h : Goes P patience (a.attempt >>= f) record q) :
    (∃ p, Goes P patience a record p ∧ (∀ o, p ≠ .done o) ∧ ∀ o, q ≠ .done o) ∨
      ∃ (first second : List (Instant P)) (o : Except Error α), record = first ++ second ∧
        Concludes P patience a first o ∧ Goes P patience (f o) second q :=
  walk_attempt h

theorem ask {q : Query} {f : q.Answer → side.Action β} {p : side.Task (Except Error β)}
    (h : Goes P patience (Remote.ask q >>= f) record p) :
    (record = [] ∧ ∀ o, p ≠ .done o) ∨ ∃ (w : World P) (rest : List (Instant P)), record = ⟨w, q⟩ :: rest ∧
      Goes P patience (f (w.answer q).1) rest p :=
  walk_ask (P := side) h

theorem ofPure {v : α} {q : side.Task (Except Error α)} (h : Goes P patience (pure v) record q) :
    record = [] ∧ q = .done (.ok v) := walk_done h

theorem ofThrow {e : Error} {q : side.Task (Except Error α)} (h : Goes P patience (throw e) record q) :
    record = [] ∧ q = .done (.error e) := walk_done h

theorem ofExcept {r : Except Error α} {q : side.Task (Except Error α)}
    (h : Goes P patience (Action.ofExcept r) record q) : record = [] ∧ q = .done r :=
  walk_ofExcept h

end Goes

theorem goes_command {method : String} {doc : Json} {q : side.Task (Except Error Json)}
    (h : Goes P patience (command method doc) record q) :
    (record = [] ∧ ∀ o, q ≠ .done o) ∨ ∃ w : World P, record = [⟨w, .command method doc⟩] ∧
      ∀ o, q = .done o → o = outcomeIn w method doc := by
  rcases h.ask with hnone | ⟨w, rest, rfl, hrest⟩
  · exact Or.inl hnone
  · refine Or.inr ⟨w, ?_⟩
    dsimp only at hrest
    split at hrest
    · have hnone : rest = [] := by
        have hasks : Asks (fun r : Request side.signature => ∀ q, r ≠ .query q)
            (Action.sleep (B := side) ((World.answer w (.command method doc)).1 : Delivery).delay >>= fun _ =>
              Action.ofExcept ((World.answer w (.command method doc)).1 : Delivery).outcome).outcome :=
          asks_andThen (Activity.asks_sleep nofun (fun _ => nofun) _) fun _ => Activity.asks_ofExcept _
        refine List.eq_nil_iff_forall_not_mem.mpr fun m hm => ?_
        exact absurd rfl (Walk.asked_of_asks hrest hasks m hm m.query)
      refine ⟨congrArg _ hnone, ?_⟩
      rintro o rfl
      obtain ⟨first, second, u, -, -, hsecond⟩ := ends_lift hrest
      exact (ends_ofExcept hsecond).2.symm
    · obtain ⟨rfl, rfl⟩ := hrest.ofExcept
      exact ⟨rfl, fun o hdone => (Activity.done.inj hdone).symm⟩

/-- A command is followed at most by what makes the program forget. -/
theorem goes_send {method : String} {doc : Json} {q : side.Task (Except Error Json)}
    (h : Goes P patience (send method doc) record q) :
    (record = [] ∧ ∀ o, q ≠ .done o) ∨ ∃ (w : World P) (rest : List (Instant P)),
      record = ⟨w, .command method doc⟩ :: rest ∧ (∀ m ∈ rest, m.query = .forget) ∧
      ∀ o, q = .done o → o = outcomeIn w method doc := by
  rcases h.attempt with ⟨p, hwalk, -, hlive⟩ | ⟨first, second, o, rfl, hfirst, hsecond⟩
  · rcases goes_command hwalk with ⟨rfl, -⟩ | ⟨w, rfl, -⟩
    · exact Or.inl ⟨rfl, hlive⟩
    · exact Or.inr ⟨w, [], rfl, fun m hm => absurd hm List.not_mem_nil, fun o h => absurd h (hlive o)⟩
  · obtain ⟨w, rfl, rfl⟩ := concludes_command hfirst
    refine Or.inr ⟨w, second, rfl, ?_⟩
    generalize outcomeIn w method doc = r at hsecond
    cases r with
    | ok reply =>
      obtain ⟨rfl, rfl⟩ := hsecond.ofPure
      exact ⟨fun m hm => absurd hm List.not_mem_nil, fun o hdone => (Activity.done.inj hdone).symm⟩
    | error e =>
      dsimp only at hsecond
      split at hsecond
      · rcases hsecond.ask with ⟨rfl, hlive⟩ | ⟨v, rest, rfl, hrest⟩
        · exact ⟨fun m hm => absurd hm List.not_mem_nil, fun o hdone => absurd hdone (hlive o)⟩
        · obtain ⟨rfl, rfl⟩ := hrest.ofThrow
          refine ⟨fun m hm => ?_, fun o hdone => (Activity.done.inj hdone).symm⟩
          rw [List.mem_singleton.mp hm]
      · obtain ⟨rfl, rfl⟩ := hsecond.ofThrow
        exact ⟨fun m hm => absurd hm List.not_mem_nil, fun o hdone => (Activity.done.inj hdone).symm⟩

/-- What a call comes to is read from its reply. -/
theorem goes_readResult {reply : Json} {q : side.Task (Except Error RemoteObject)}
    (h : Goes P patience (read Protocol.Evaluation.reader reply >>= fun evaluation =>
      match evaluation.exception with
      | some e => throw (thrown e)
      | none => pure evaluation.result) record q) : record = [] ∧ q = .done (resultOf (.ok reply)) := by
  unfold read at h
  unfold resultOf
  dsimp only
  cases hread : Protocol.Evaluation.reader.ofJson? reply with
  | none =>
    rw [hread] at h
    exact Goes.ofThrow h
  | some evaluation =>
    rw [hread] at h
    obtain ⟨result, exception⟩ := evaluation
    cases exception with
    | some e => exact Goes.ofThrow h
    | none => exact Goes.ofPure h

/-- A page function is called at most once, and what the call comes to is read from the reply. -/
theorem goes_callFunction {arguments : List Json} {q : side.Task (Except Error RemoteObject)}
    (h : Goes P patience (callFunction script arguments false) record q) :
    (results script record = [] ∧ ∀ v, q ≠ .done (.ok v)) ∨
      ∃ o, results script record = [o] ∧ ∀ o', q = .done o' → o' = o := by
  have hglobal : Asks (Passing script) globalId.outcome := asks_globalId (plain_passing script)
  rcases h.andThen with ⟨p, hwalk, -, hlive⟩ | ⟨e, hends, rfl⟩ | ⟨first, second, id, rfl, hfirst, hsecond⟩
  · exact Or.inl ⟨hwalk.results hglobal, fun v => hlive _⟩
  · exact Or.inl ⟨results_of_asks hends hglobal, nofun⟩
  rw [results_append, results_of_asks hfirst hglobal, List.nil_append]
  have hcalled (w : World P) {rest : List (Instant P)} (hrest : ∀ m ∈ rest, m.query = .forget) :
      results script (⟨w, .command "Runtime.callFunctionOn" (callParams script arguments false id)⟩ :: rest) =
        [resultOf (outcomeIn w "Runtime.callFunctionOn" (callParams script arguments false id))] := by
    have hnone : List.filterMap (resultAt? script) rest = [] := results_none fun m hm => by
      rw [hrest m hm]
      rfl
    rw [results, List.filterMap_cons, hnone]
    simp only [resultAt?, evaluates_call, if_true]
    rfl
  rcases hsecond.andThen with ⟨p, hwalk, -, hlive⟩ | ⟨e, hends, rfl⟩ | ⟨sent, rest, reply, rfl, hsent, hread⟩
  · rcases goes_send hwalk with ⟨rfl, -⟩ | ⟨w, rest, rfl, hrest, -⟩
    · exact Or.inl ⟨rfl, fun v => hlive _⟩
    · exact Or.inr ⟨_, hcalled w hrest, fun o hdone => absurd hdone (hlive o)⟩
  · rcases goes_send hends with ⟨-, hlive⟩ | ⟨w, rest, rfl, hrest, houtcome⟩
    · exact absurd rfl (hlive _)
    · refine Or.inr ⟨_, hcalled w hrest, fun o hdone => ?_⟩
      obtain rfl := Activity.done.inj hdone
      rw [← houtcome _ rfl]
      rfl
  · rcases goes_send hsent with ⟨-, hlive⟩ | ⟨w, forgetting, rfl, hforgets, houtcome⟩
    · exact absurd rfl (hlive _)
    · have hsaid := hcalled w hforgets
      rw [← houtcome _ rfl] at hsaid
      obtain ⟨rfl, rfl⟩ := goes_readResult hread
      refine Or.inr ⟨resultOf (.ok reply), ?_, fun o hdone => (Activity.done.inj hdone).symm⟩
      rw [List.append_nil]
      exact hsaid

/-! ### Where a wait stops -/

/-- A wait that has asked so much and goes on so has evaluated its function until a result counted as true,
and hands that on. -/
structure StopsFirst (script : String) (record : List (Instant P)) (q : side.Task (Except Error Handle)) : Prop where
  vain : ∀ o ∈ (results script record).dropLast, ∃ r, o = .ok r ∧ r.isTruthy = false
  found : ∀ r, (results script record).getLast? = some (.ok r) → r.isTruthy = true →
    ∀ o, q = .done o → ∃ h, o = .ok h ∧ h.remote = r
  only : ∀ h, q = .done (.ok h) →
    (results script record).getLast? = some (.ok h.remote) ∧ h.remote.isTruthy = true

namespace StopsFirst

variable {q : side.Task (Except Error Handle)}

theorem of_none (h : results script record = []) (hq : ∀ handle, q ≠ .done (.ok handle)) :
    StopsFirst script record q where
  vain o ho := by simp [h] at ho
  found r hr := by simp [h] at hr
  only handle hdone := absurd hdone (hq handle)

/-- After an evaluation that came to nothing it stops where it stops from then on. -/
theorem after {first second : List (Instant P)} {r : RemoteObject} (hfirst : results script first = [.ok r])
    (hfalsy : r.isTruthy = false) (h : StopsFirst script second q) : StopsFirst script (first ++ second) q := by
  have hall : results script (first ++ second) = .ok r :: results script second := by
    rw [results_append, hfirst]
    rfl
  cases hsecond : results script second with
  | nil =>
    rw [hsecond] at hall
    refine ⟨fun o ho => ?_, fun r' hr' htrue => ?_, fun handle hdone => ?_⟩
    · rw [hall] at ho
      exact absurd ho List.not_mem_nil
    · rw [hall] at hr'
      obtain rfl : r = r' := Except.ok.inj (Option.some.inj hr')
      exact absurd (hfalsy.symm.trans htrue) Bool.false_ne_true
    · have hlast := (h.only handle hdone).1
      rw [hsecond] at hlast
      exact absurd hlast nofun
  | cons o rest =>
    rw [hsecond] at hall
    have hlast : (results script (first ++ second)).getLast? = (results script second).getLast? := by
      rw [hall, hsecond, List.getLast?_cons_cons]
    refine ⟨fun o' ho' => ?_, fun r' hr' => h.found r' (hlast ▸ hr'), fun handle hdone => hlast ▸ h.only handle hdone⟩
    rw [hall, List.dropLast_cons_of_ne_nil (List.cons_ne_nil o rest)] at ho'
    rcases List.mem_cons.mp ho' with rfl | ho'
    · exact ⟨r, rfl, hfalsy⟩
    · exact h.vain o' (hsecond ▸ ho')

/-- Questions that evaluate nothing do not matter. -/
theorem of_quiet {first second : List (Instant P)} (hfirst : results script first = [])
    (h : StopsFirst script second q) : StopsFirst script (first ++ second) q := by
  have hall : results script (first ++ second) = results script second := by
    rw [results_append, hfirst, List.nil_append]
  obtain ⟨hvain, hfound, honly⟩ := h
  rw [← hall] at hvain hfound honly
  exact ⟨hvain, hfound, honly⟩

/-- Nor does an action that evaluates nothing. -/
theorem andThen {a : side.Action α} {f : α → side.Action Handle} (h : Goes P patience (a >>= f) record q)
    (ha : Asks (Passing script) a.outcome)
    (hf : ∀ v second, Goes P patience (f v) second q → StopsFirst script second q) : StopsFirst script record q := by
  rcases h.andThen with ⟨p, hwalk, -, hq⟩ | ⟨e, hends, rfl⟩ | ⟨first, second, v, rfl, hfirst, hsecond⟩
  · exact of_none (hwalk.results ha) fun handle => hq _
  · exact of_none (results_of_asks hends ha) nofun
  · exact of_quiet (results_of_asks hfirst ha) (hf v second hsecond)

/-- What has not ended after one evaluation may still stop there. -/
theorem of_live {o : Except Error RemoteObject} (h : results script record = [o]) (hq : ∀ r, q ≠ .done r) :
    StopsFirst script record q where
  vain o' ho' := by simp [h] at ho'
  found _ _ _ r hdone := absurd hdone (hq r)
  only handle hdone := absurd hdone (hq _)

theorem of_failed {e : Error} (h : results script record = [.error e]) :
    StopsFirst script record (.done (.error e)) where
  vain o ho := by simp [h] at ho
  found r hr := by simp [h] at hr
  only handle := nofun

theorem of_found {handle : Handle} (h : results script record = [.ok handle.remote])
    (htrue : handle.remote.isTruthy = true) : StopsFirst script record (.done (.ok handle)) where
  vain o ho := by simp [h] at ho
  found r hr _ o hdone := by
    rw [h] at hr
    exact ⟨handle, (Activity.done.inj hdone).symm, Except.ok.inj (Option.some.inj hr)⟩
  only other hdone := by
    obtain rfl := Except.ok.inj (Activity.done.inj hdone)
    rw [h]
    exact ⟨rfl, htrue⟩

end StopsFirst

theorem stops_poll {arguments : List Json} {timeout interval : Nat} {deadline : Option Nat} {fuel : Nat}
    {record : List (Instant P)} {q : side.Task (Except Error Handle)}
    (h : Goes P patience (poll script arguments timeout interval deadline fuel) record q) :
    StopsFirst script record q := by
  induction fuel generalizing record with
  | zero =>
    refine .of_none (h.results (Activity.asks_never trivial)) ?_
    rintro handle rfl
    exact Activity.not_ends_never h
  | succ fuel ih =>
    rcases h.andThen with ⟨p, hwalk, hlive, hq⟩ | ⟨e, hends, rfl⟩ | ⟨first, rest, remote, rfl, hfirst, hrest⟩
    · rcases goes_callFunction hwalk with ⟨hnone, -⟩ | ⟨o, ho, -⟩
      · exact .of_none hnone fun handle => hq _
      · exact .of_live ho hq
    · rcases goes_callFunction hends with ⟨hnone, -⟩ | ⟨o, ho, houtcome⟩
      · exact .of_none hnone nofun
      · exact .of_failed (houtcome _ rfl ▸ ho)
    · have hcalled : results script first = [.ok remote] := by
        rcases goes_callFunction hfirst with ⟨-, hlive⟩ | ⟨o, ho, houtcome⟩
        · exact absurd rfl (hlive _)
        · rw [ho, ← houtcome _ rfl]
      split at hrest
      · rename_i htrue
        have hwrap : Goes P patience (Remote.ask (.wrap remote) >>= pure) rest q := by
          rw [bind_pure]
          exact hrest
        rcases hwrap.ask with ⟨rfl, hlive⟩ | ⟨w, last, rfl, hlast⟩
        · rw [List.append_nil]
          exact .of_live hcalled hlive
        · obtain ⟨rfl, rfl⟩ := hlast.ofPure
          refine .of_found ?_ htrue
          rw [results_append, hcalled]
          rfl
      · rename_i hfalsy
        refine .after hcalled (Bool.eq_false_of_not_eq_true hfalsy) ?_
        refine .andThen hrest (asks_releaseResult (plain_passing script) remote) fun _ second hsecond => ?_
        refine .andThen hsecond (Activity.Asks.bind (Activity.asks_perform trivial) fun _ => trivial)
          fun (now : Nat) third hthird => ?_
        dsimp only at hthird
        split at hthird
        · obtain ⟨rfl, rfl⟩ := Goes.ofThrow hthird
          exact .of_none rfl nofun
        · exact .andThen hthird (Activity.asks_sleep trivial (fun _ => trivial) _) fun _ fourth hfourth => ih hfourth

theorem stops_waitFor {wait : FunctionWait} {bindings : List (Binding Handle)} {args : List (Argument Handle)}
    {q : side.Task (Except Error Handle)}
    (h : Goes P patience (waitFor patience script wait bindings args) record q) : StopsFirst script record q := by
  have hplain := plain_passing script
  refine .andThen h (asks_forM (asks_lend hplain fun arguments id => evaluates_byValue _ arguments id) bindings)
    fun _ second hsecond => ?_
  have hrest (deadline : Option Nat) {record : List (Instant P)} (h : Goes P patience (do
      let arguments ← args.mapM callArgument
      poll script arguments wait.timeout (pollInterval wait.polling) deadline
        (turns patience wait.timeout (pollInterval wait.polling)) : side.Action Handle) record q) :
      StopsFirst script record q :=
    .andThen h (asks_mapM (asks_callArgument hplain) args) fun _ _ => stops_poll
  dsimp only at hsecond
  split at hsecond
  · exact hrest none hsecond
  · refine .andThen hsecond ?_ fun deadline _ => hrest deadline
    exact asks_andThen (asks_andThen (Activity.Asks.bind (Activity.asks_perform trivial) fun _ => trivial)
      fun _ => trivial) fun _ => trivial

/-- Of a description of a value a result is read that counts as true exactly when the value does and is not
lost.  And whatever the peer does, a wait for a page function stops at the first such value: after it nothing
is evaluated, and the wait ends with a handle of it.  At any other value it goes on, so that a wait which ends
with a handle has evaluated such a value last. -/
theorem stops_of_answers {start last : World P} {own : List (Instant P)} {wait : FunctionWait}
    {bindings : List (Binding Handle)} {args : List (Argument Handle)} {q : side.Task (Except Error Handle)}
    (h : Amid (backend P patience) start (waitFor patience script wait bindings args).outcome own last q) :
    (∀ v r doc, Value.Shown v r → Writes r doc → ∃ r', RemoteObject.reader.ofJson? doc = some r' ∧
      r'.isTruthy = (v.isTrue && !v.isLost)) ∧
    (∀ n v reply, Answers v reply → (results script own)[n]? = some (resultOf (.ok reply)) →
      (v.isTrue && !v.isLost) = true → n + 1 = (results script own).length ∧
        ∀ o, q = .done o → ∃ handle, o = .ok handle ∧ resultOf (.ok reply) = .ok handle.remote) ∧
    (∀ n v reply, Answers v reply → (results script own)[n]? = some (resultOf (.ok reply)) →
      (v.isTrue && !v.isLost) = false → n + 1 = (results script own).length →
        ∀ handle, q ≠ .done (.ok handle)) ∧
    ∀ handle, q = .done (.ok handle) → (results script own).getLast? = some (.ok handle.remote) := by
  have hstops : StopsFirst script own q := stops_waitFor h.walk
  have hread {v : Value} {reply : Json} (hanswers : Answers v reply) :
      ∃ r, resultOf (.ok reply) = .ok r ∧ r.isTruthy = (v.isTrue && !v.isLost) := by
    obtain ⟨r, hread, htrue⟩ := isTruthy_of_answers hanswers
    refine ⟨r, ?_, htrue⟩
    unfold resultOf
    dsimp only
    rw [hread]
  refine ⟨fun v r doc hshown hwrites => ?_, fun n v reply hanswers hn htrue => ?_,
    fun n v reply hanswers hn hfalse hlast handle hdone => ?_, fun handle hdone => (hstops.only handle hdone).1⟩
  · obtain ⟨r', hreads, htrue⟩ := isTruthy_of_writes hshown hwrites
    exact ⟨r', hreads _, htrue⟩
  · obtain ⟨r, hr, hcounts⟩ := hread hanswers
    rw [htrue] at hcounts
    rw [hr] at hn ⊢
    have hlast : n + 1 = (results script own).length := by
      have hlt := (List.getElem?_eq_some_iff.mp hn).1
      by_contra hmore
      have hmem : Except.ok r ∈ (results script own).dropLast := by
        refine List.mem_of_getElem? (i := n) ?_
        rw [List.getElem?_dropLast, if_pos (by omega), hn]
      obtain ⟨r', hsame, hfalsy⟩ := hstops.vain _ hmem
      obtain rfl := Except.ok.inj hsame
      exact absurd (hfalsy.symm.trans hcounts) Bool.false_ne_true
    refine ⟨hlast, fun o hdone => ?_⟩
    obtain ⟨handle, rfl, rfl⟩ := hstops.found r (by rw [List.getLast?_eq_getElem?, ← hlast]; exact hn) hcounts o hdone
    exact ⟨handle, rfl, rfl⟩
  · obtain ⟨r, hr, hcounts⟩ := hread hanswers
    obtain ⟨hhanded, htrue⟩ := hstops.only handle hdone
    rw [List.getLast?_eq_getElem?, ← hlast, Nat.add_sub_cancel, hn, hr] at hhanded
    obtain rfl := Except.ok.inj (Option.some.inj hhanded)
    exact absurd (hfalse.symm.trans (hcounts.symm.trans htrue)) Bool.false_ne_true

/-! ### A page that counts far -/

/-- What a page replies that gives the integer twelve, as one of any size. -/
def dozen : Json :=
  .object [("result", .object [("type", .string "bigint"), ("unserializableValue", .string "12n")])]

/-- What a page replies that gives an object. -/
def thing : Json :=
  .object [("result", .object [("type", .string "object"), ("objectId", .string "thing")])]

theorem answers_dozen : Answers (.bigint 12) dozen :=
  ⟨_, _, _, rfl, by simp, rfl, rfl, ⟨_, rfl, by simp, rfl, rfl, rfl, rfl, rfl, rfl⟩, .bigint 12 none⟩

theorem answers_thing : Answers .reference thing :=
  ⟨_, _, _, rfl, by simp, rfl, rfl, ⟨_, rfl, by simp, rfl, rfl, rfl, rfl, rfl, rfl⟩,
    .reference "object" none "thing" none nofun⟩

/-- A page that gives the dozen when its function is first called, and a thing from then on. -/
def hesitant : Peer where
  State := Nat
  command method _ calls :=
    if method = "Runtime.callFunctionOn" then (⟨0, .ok (if calls = 0 then dozen else thing)⟩, [], calls + 1)
    else (⟨0, .ok thing⟩, [], calls)
  listen _ := .ok ()
  close _ := (.ok (), 0)

/-- A new world of such a page. -/
def hesitantWorld : World hesitant := .init (0 : Nat) "bundle"

/-- A wait for a function of the page, with every frame and for no longer than 20 ms. -/
def hesitantWait : side.Task (Except Error Handle) := (waitFor 0 "f" ⟨20, .frame⟩ [] []).outcome

/-- What is asked until the wait sleeps, the world then, and what is left of the wait. -/
def untilFrame : List (Instant hesitant) × World hesitant × side.Task (Except Error Handle) :=
  atOnce 0 hesitantWorld hesitantWait

/-- When the frame has come. -/
def atFrame : Activity.Timeline side.signature (backend hesitant 0).World :=
  { Activity.Timeline.init (S := side.signature) untilFrame.2.1 with clock := 16 }

/-- The dozen is passed over, and the wait stops at the thing. -/
theorem stops_at_thing :
    ∃ (own : List (Instant hesitant)) (last : World hesitant) (handle : Handle),
      Amid (backend hesitant 0) hesitantWorld hesitantWait own last (.done (.ok handle)) ∧
      (results "f" own)[0]? = some (resultOf (.ok dozen)) ∧ (results "f" own)[1]? = some (resultOf (.ok thing)) ∧
      2 = (results "f" own).length ∧ resultOf (.ok thing) = .ok handle.remote := by
  have hbegun : Amid (backend hesitant 0) hesitantWorld hesitantWait untilFrame.1 atFrame.world untilFrame.2.2 :=
    amid_atOnce 0 hesitantWorld hesitantWait
  have hcall := hbegun.advance
  obtain ⟨o, ho⟩ := Option.isSome_iff_exists.mp
    (show (result? (Activity.Timeline.advance (backend hesitant 0) untilFrame.2.2 atFrame).1).isSome = true by
      decide +kernel)
  rw [eq_of_result? ho] at hcall
  obtain ⟨-, hfound, -, -⟩ := stops_of_answers hcall
  obtain ⟨htwo, hend⟩ := hfound 1 .reference thing answers_thing rfl rfl
  obtain ⟨handle, rfl, hhandle⟩ := hend o rfl
  exact ⟨_, _, handle, hcall, rfl, rfl, htwo, hhandle⟩

/-- Of the dozen something is read that does not count as true, though it does. -/
theorem dozen_lost : Answers (.bigint 12) dozen ∧ (Value.bigint 12).isTrue = true ∧
    ∃ r, Protocol.Evaluation.reader.ofJson? dozen = some ⟨r, none⟩ ∧ r.isTruthy = false := by
  obtain ⟨r, hread, htrue⟩ := isTruthy_of_answers answers_dozen
  exact ⟨answers_dozen, rfl, r, hread, htrue⟩

end Wayfind.Remote
