/-
When a page function is evaluated that is waited for.

The commands of the peer take no time.  Then a wait evaluates its function at once, and again after every
interval, until a result counts as true; with a time limit the last sleep is cut short, so that there is
one more evaluation at the deadline itself.  `Vain` says what the diary of the wait holds after so many
evaluations that came to nothing, `WaitEnds` how the wait may end and when, `Resting` for what it waits
meanwhile; every run is such, and comes to its end if it has a time limit (`schedule_of_wait`).
-/
import Mathlib.Algebra.Order.Floor.Div
import Wayfind.Proofs.Activity.Diary
import Wayfind.Proofs.Activity.Sequence
import Wayfind.Proofs.Remote.Commands

namespace Wayfind.Remote

open Activity (Brief Diary Ends Entry Pause Paces Run Timeline diaryOf paced_of_run paces_actionClock paces_actionSleep
  paces_andThen paces_ask paces_attempt paces_never paces_ofExcept)
open PageSide (Action)
open Protocol (RemoteObject Evaluation)

variable {P : Peer} {patience : Nat} {script : String} {wait : FunctionWait} {began now n : Nat}

/-- The peer answers every command at once. -/
def Peer.Immediate (P : Peer) : Prop := ∀ method doc s, (P.command method doc s).1.delay = 0

/-! ### The schedule -/

/-- The time from the beginning of a wait to its evaluation of a number. -/
def offset (wait : FunctionWait) (number : Nat) : Nat :=
  if wait.timeout = 0 then number * pollInterval wait.polling
  else min (number * pollInterval wait.polling) wait.timeout

/-- How often a function is evaluated at most, if there is a time limit. -/
def rounds (wait : FunctionWait) : Nat := wait.timeout ⌈/⌉ pollInterval wait.polling + 1

theorem pollInterval_pos (polling : Polling) : 0 < pollInterval polling := by
  cases polling <;> simp [pollInterval]

@[simp] theorem offset_zero (wait : FunctionWait) : offset wait 0 = 0 := by
  simp [offset]

/-- Before the deadline the evaluations follow each other at the interval. -/
theorem lt_ceilDiv_iff (wait : FunctionWait) (number : Nat) :
    number < wait.timeout ⌈/⌉ pollInterval wait.polling ↔
      number * pollInterval wait.polling < wait.timeout := by
  rw [← Nat.not_le, ceilDiv_le_iff_le_mul (pollInterval_pos _), Nat.not_le, Nat.mul_comm]

/-- The deadline of a wait, if it has a time limit. -/
def deadline (wait : FunctionWait) (began : Nat) : Option Nat :=
  if wait.timeout = 0 then none else some (began + wait.timeout)

/-- The next evaluation comes after the interval, or at the deadline. -/
theorem offset_succ (hbefore : ¬ (deadline wait began).any (· ≤ began + offset wait n) = true) :
    offset wait n + ((deadline wait began).map fun d =>
        min (pollInterval wait.polling) (d - (began + offset wait n))).getD (pollInterval wait.polling) =
      offset wait (n + 1) ∧ (0 < wait.timeout → n + 1 < rounds wait) := by
  by_cases hnever : wait.timeout = 0
  · refine ⟨?_, fun hlimit => absurd hnever (Nat.ne_of_gt hlimit)⟩
    rw [deadline, offset, offset, if_pos hnever, if_pos hnever, if_pos hnever, Nat.succ_mul]
    rfl
  · have hearly : offset wait n < wait.timeout := by
      simpa [deadline, hnever] using hbefore
    have hleft : began + wait.timeout - (began + offset wait n) = wait.timeout - offset wait n :=
      Nat.add_sub_add_left _ _ _
    have hround : n < wait.timeout ⌈/⌉ pollInterval wait.polling := by
      rw [lt_ceilDiv_iff]
      rw [offset, if_neg hnever] at hearly
      omega
    refine ⟨?_, fun _ => Nat.succ_lt_succ hround⟩
    rw [lt_ceilDiv_iff] at hround
    rw [deadline, if_neg hnever, Option.map_some, Option.getD_some, hleft, offset, offset, if_neg hnever,
      if_neg hnever, Nat.succ_mul]
    omega

theorem offset_mono (wait : FunctionWait) {m n : Nat} (h : m ≤ n) : offset wait m ≤ offset wait n := by
  have hmul := Nat.mul_le_mul_right (pollInterval wait.polling) h
  unfold offset
  split <;> omega

/-- The evaluation at the deadline is the last one. -/
theorem eq_rounds (hover : (deadline wait began).any (· ≤ began + offset wait n) = true)
    (hn : 0 < wait.timeout → n < rounds wait) :
    0 < wait.timeout ∧ offset wait n = wait.timeout ∧ n + 1 = rounds wait := by
  by_cases hnever : wait.timeout = 0
  · simp [deadline, hnever] at hover
  · have hlimit := Nat.pos_of_ne_zero hnever
    have hlate : wait.timeout ≤ offset wait n := by
      simpa [deadline, hnever] using hover
    have hround : ¬ n < wait.timeout ⌈/⌉ pollInterval wait.polling := by
      rw [lt_ceilDiv_iff]
      rw [offset, if_neg hnever] at hlate
      omega
    have hlast := hn hlimit
    rw [rounds] at hlast ⊢
    refine ⟨hlimit, ?_, by omega⟩
    rw [offset, if_neg hnever] at hlate ⊢
    omega

/-- With a time limit there are turns enough. -/
theorem rounds_le_turns (patience : Nat) (hlimit : 0 < wait.timeout) :
    rounds wait ≤ turns patience wait.timeout (pollInterval wait.polling) := by
  have hceil : wait.timeout ⌈/⌉ pollInterval wait.polling ≤ wait.timeout / pollInterval wait.polling + 1 := by
    rw [ceilDiv_le_iff_le_mul (pollInterval_pos _), Nat.mul_add, Nat.mul_one]
    have hdiv := Nat.div_add_mod wait.timeout (pollInterval wait.polling)
    have hmod := Nat.mod_lt wait.timeout (pollInterval_pos wait.polling)
    omega
  rw [rounds, turns, if_neg (Nat.ne_of_gt hlimit)]
  omega

/-! ### Evaluations in a diary -/

/-- What an evaluation of a page function came to, and when. -/
structure Evaluated where
  time : Nat
  result : Except Error RemoteObject

/-- The page function is called for a reference to its result. -/
def Query.evaluates (script : String) : Query → Bool
  | .command method doc => method == "Runtime.callFunctionOn" &&
    (doc.member "functionDeclaration").string? == some script &&
    (doc.member "returnByValue").bool? == some false
  | _ => false

/-- What the evaluation of a page function came to that a question asks for. -/
def resultAt? (script : String) : Instant P → Option (Except Error RemoteObject)
  | ⟨w, .command method doc⟩ =>
    if (Query.command method doc).evaluates script then
      some (resultOf (P.command method doc w.peer).1.outcome)
    else none
  | _ => none

/-- The evaluation of a page function that an entry tells of. -/
def evaluation? (script : String) (e : Entry (backend P patience)) : Option Evaluated :=
  (resultAt? script e.moment).map (⟨e.time, ·⟩)

/-- The evaluations of a page function, one after another. -/
def evaluations (script : String) (diary : Diary (backend P patience)) : List Evaluated :=
  diary.filterMap (evaluation? script)

/-- The command to release a reference. -/
def releaseOf (id : String) : Query := .command "Runtime.releaseObject" (params [("objectId", .string id)])

section Evaluations

variable {diary more : Diary (backend P patience)}

@[simp] theorem evaluations_nil : evaluations script ([] : Diary (backend P patience)) = [] := rfl

@[simp] theorem evaluations_append : evaluations script (diary ++ more) =
    evaluations script diary ++ evaluations script more := List.filterMap_append

theorem resultAt?_none {m : Instant P} (h : m.query.evaluates script = false) : resultAt? script m = none := by
  obtain ⟨w, q⟩ := m
  cases q with
  | command method doc =>
    refine if_neg ?_
    rw [Bool.not_eq_true]
    exact h
  | _ => rfl

theorem evaluations_none (h : ∀ e ∈ diary, e.moment.query.evaluates script = false) :
    evaluations script diary = [] :=
  List.filterMap_eq_nil_iff.mpr fun e he => by rw [evaluation?, resultAt?_none (h e he), Option.map_none]

theorem evaluates_call (arguments : List Json) (id : String) :
    (Query.command "Runtime.callFunctionOn" (callParams script arguments false id)).evaluates script = true := by
  have hscript : ((callParams script arguments false id).member "functionDeclaration").string? =
      some script := rfl
  have hvalue : ((callParams script arguments false id).member "returnByValue").bool? = some false := rfl
  simp [Query.evaluates, hscript, hvalue]

/-- A call for the value of the result is no evaluation for a reference. -/
theorem evaluates_byValue (function : String) (arguments : List Json) (id : String) :
    (Query.command "Runtime.callFunctionOn" (callParams function arguments true id)).evaluates script =
      false := by
  have hvalue : ((callParams function arguments true id).member "returnByValue").bool? = some true := rfl
  simp [Query.evaluates, hvalue]

theorem evaluates_command {method : String} (h : method ≠ "Runtime.callFunctionOn") (doc : Json) :
    (Query.command method doc).evaluates script = false := by
  simp [Query.evaluates, h]

end Evaluations

/-! ### Commands take no time -/

/-- The question is no evaluation of the function. -/
abbrev Query.Passes (script : String) (q : Query) : Prop := q.evaluates script = false

section Commands

variable (hP : P.Immediate) {diary : Diary (backend P patience)}
  {W : Diary (backend P patience) → Nat → Pause side.signature → Prop}
include hP

theorem paces_command {method : String} {doc : Json}
    {Q : Diary (backend P patience) → Nat → Except Error Json → Prop}
    (hQ : ∀ w : World P, Q (diary ++ [⟨now, w, .command method doc⟩]) now
      (P.command method doc w.peer).1.outcome) :
    Paces W Q (command method doc).outcome diary now := by
  unfold command
  refine paces_ask fun (w : World P) => ?_
  have hnone : ¬ (P.command method doc w.peer).1.delay > 0 := by
    rw [hP]
    exact Nat.lt_irrefl 0
  show Paces W Q (if (P.command method doc w.peer).1.delay > 0 then
    Action.sleep (P.command method doc w.peer).1.delay >>= fun _ => Action.ofExcept _ else _).outcome _ now
  rw [if_neg hnone]
  exact paces_ofExcept (hQ w)

/-- A command whose failure may make the program forget what it knew. -/
theorem paces_send {method : String} {doc : Json}
    {Q : Diary (backend P patience) → Nat → Except Error Json → Prop}
    (hQ : ∀ (w : World P) more, (∀ e ∈ more, e.moment.query = .forget) →
      Q (diary ++ ⟨now, w, .command method doc⟩ :: more) now (P.command method doc w.peer).1.outcome) :
    Paces W Q (send method doc).outcome diary now := by
  refine paces_attempt.mpr (paces_command hP fun w => ?_)
  have hsent := hQ w
  have hdirect := hsent [] fun _ h => absurd h List.not_mem_nil
  revert hsent hdirect
  generalize (P.command method doc w.peer).1.outcome = r
  intro hsent hdirect
  cases r with
  | ok reply => exact hdirect
  | error e =>
    dsimp only
    split
    · refine paces_ask fun v => ?_
      rw [List.append_assoc]
      refine hsent [⟨now, v, .forget⟩] fun e he => ?_
      rw [List.mem_singleton.mp he]
    · exact hdirect

theorem brief_command {method : String} {doc : Json} (h : (Query.command method doc).Passes script) :
    Brief (backend P patience) (Query.Passes script) (command method doc) := by
  intro W diary now
  refine paces_command hP fun w => ⟨rfl, _, rfl, fun e he => ?_⟩
  rw [List.mem_singleton.mp he]
  exact h

theorem brief_send {method : String} {doc : Json} (h : (Query.command method doc).Passes script) :
    Brief (backend P patience) (Query.Passes script) (send method doc) := by
  intro W diary now
  refine paces_send hP fun w more hmore => ⟨rfl, _, rfl, fun e he => ?_⟩
  rcases List.mem_cons.mp he with rfl | he
  · exact h
  · rw [hmore e he]
    rfl

omit hP in
theorem brief_read {α : Type} (reader : Json.Reader α) (reply : Json) :
    Brief (backend P patience) (Query.Passes script) (read reader reply) := by
  unfold read
  split
  · exact .pure _
  · exact .throw _

theorem brief_globalId : Brief (backend P patience) (Query.Passes script) globalId := by
  refine .ask rfl fun (w : World P) => ?_
  generalize ((backend P patience).answer .global w).1 = known
  cases (known : Option String) with
  | some id => exact .pure id
  | none =>
    refine (brief_command hP (evaluates_command (by decide) _)).bind fun reply => ?_
    refine (brief_read _ _).bind fun evaluation => ?_
    cases evaluation.result.objectId with
    | none => exact .throw _
    | some id => exact .ask rfl fun _ => .pure id

/-- A call for the value of the result. -/
theorem brief_callFunction (function : String) (arguments : List Json) :
    Brief (backend P patience) (Query.Passes script) (callFunction function arguments true) := by
  refine (brief_globalId hP).bind fun id => ?_
  refine (brief_send hP (evaluates_byValue function arguments id)).bind fun reply => ?_
  refine (brief_read _ _).bind fun evaluation => ?_
  cases evaluation.exception with
  | some e => exact .throw _
  | none => exact .pure _

omit hP in
theorem brief_startListening : Brief (backend P patience) (Query.Passes script) startListening := by
  refine .ask rfl fun (w : World P) => ?_
  show Brief _ _ (if !w.listening then _ else _)
  split
  · exact .ask rfl fun _ => .ofExcept _
  · exact .pure ()

theorem brief_lend (binding : Binding Handle) :
    Brief (backend P patience) (Query.Passes script) (lend binding) := by
  refine .ask rfl fun (w : World P) => ?_
  show Brief _ _ (if w.installed.contains binding.name then _ else _)
  split
  · exact .pure ()
  · refine brief_startListening.bind fun _ => ?_
    refine (brief_send hP (evaluates_command (by decide) _)).bind fun _ => ?_
    refine (brief_callFunction hP _ _).bind fun _ => ?_
    exact .ask rfl fun _ => .pure ()

omit hP in
theorem brief_callArgument (a : Argument Handle) :
    Brief (backend P patience) (Query.Passes script) (callArgument a) := by
  cases a with
  | value v => exact .pure _
  | undefined => exact .pure _
  | handle h =>
    refine .ask rfl fun (w : World P) => ?_
    show Brief _ _ (if w.isDisposed h then _ else _)
    split
    · exact .throw _
    · cases h.remote.objectId <;> exact .pure _

/-- To evaluate the function takes no time, and is told of in the diary unless the global object is
missing. -/
theorem paces_callFunction {arguments : List Json}
    {Q : Diary (backend P patience) → Nat → Except Error RemoteObject → Prop}
    (hQ : ∀ more r, (evaluations script more = [⟨now, r⟩] ∨ evaluations script more = [] ∧ ∃ e, r = .error e) →
      Ends (backend P patience) (callFunction script arguments false).outcome (more.map (·.moment)) r →
      Q (diary ++ more) now r) :
    Paces W Q (callFunction script arguments false).outcome diary now := by
  suffices h : Paces W (fun last later r => later = now ∧ ∃ more, last = diary ++ more ∧
      (evaluations script more = [⟨now, r⟩] ∨ evaluations script more = [] ∧ ∃ e, r = .error e))
      (callFunction script arguments false).outcome diary now by
    refine h.ends.mono ?_
    rintro last later r ⟨⟨rfl, more, rfl, hmore⟩, own, hsame, hends⟩
    obtain rfl := List.append_cancel_left hsame
    exact hQ more r hmore hends
  have hglobal : Brief (backend P patience) (Query.Passes script) globalId := brief_globalId hP
  refine paces_andThen.mpr ((hglobal W diary now).mono ?_)
  rintro last later r ⟨rfl, lookup, rfl, hlookup⟩
  cases r with
  | error e => exact ⟨rfl, lookup, rfl, Or.inr ⟨evaluations_none hlookup, e, rfl⟩⟩
  | ok id =>
    refine paces_andThen.mpr (paces_send hP fun w rest hrest => ?_)
    have hpasses : ∀ e ∈ rest, e.moment.query.Passes script := by
      intro e he
      rw [hrest e he]
      rfl
    have hcall : evaluations script (lookup ++ ⟨later, w, .command "Runtime.callFunctionOn"
        (callParams script arguments false id)⟩ :: rest) =
        [⟨later, resultOf (P.command "Runtime.callFunctionOn"
          (callParams script arguments false id) w.peer).1.outcome⟩] := by
      rw [evaluations_append, evaluations_none hlookup, List.nil_append, evaluations,
        List.filterMap_cons, ← evaluations, evaluations_none hpasses]
      simp only [evaluation?, resultAt?, evaluates_call, if_true, Option.map_some]
    revert hcall
    generalize (P.command "Runtime.callFunctionOn" (callParams script arguments false id) w.peer).1.outcome = r
    intro hcall
    rw [List.append_assoc]
    cases r with
    | error e => exact ⟨rfl, _, rfl, Or.inl hcall⟩
    | ok reply =>
      dsimp only
      unfold read
      unfold resultOf at hcall
      dsimp only at hcall
      cases hread : Evaluation.reader.ofJson? reply with
      | none =>
        rw [hread] at hcall
        exact ⟨rfl, _, rfl, Or.inl hcall⟩
      | some evaluation =>
        rw [hread] at hcall
        obtain ⟨result, exception⟩ := evaluation
        cases exception with
        | some e => exact ⟨rfl, _, rfl, Or.inl hcall⟩
        | none => exact ⟨rfl, _, rfl, Or.inl hcall⟩

/-- To release a result takes no time, and is told of in the diary if there is a reference. -/
theorem paces_releaseResult {remote : RemoteObject}
    {Q : Diary (backend P patience) → Nat → Except Error Unit → Prop}
    (hQ : ∀ more, evaluations script more = [] →
      (∀ id, remote.objectId = some id → ∃ e ∈ more, e.moment.query = releaseOf id) →
      Q (diary ++ more) now (.ok ())) :
    Paces W Q (releaseResult remote).outcome diary now := by
  unfold releaseResult
  cases hid : remote.objectId with
  | none =>
    have hnone := hQ [] rfl fun id hsome => absurd (hid.symm.trans hsome) nofun
    rw [List.append_nil] at hnone
    exact hnone
  | some id =>
    refine paces_attempt.mpr (paces_send hP fun w more hmore => hQ _ ?_ ?_)
    · refine evaluations_none fun e he => ?_
      rcases List.mem_cons.mp he with rfl | he
      · exact evaluates_command (by decide) _
      · rw [hmore e he]
        rfl
    · intro other hother
      obtain rfl := Option.some.inj (hid.symm.trans hother)
      exact ⟨_, List.mem_cons_self, rfl⟩

end Commands

/-! ### Rounds -/

/-- Every result of the function that does not count as true, if it is a reference, is released before
the function is evaluated again. -/
def FreedBetween (script : String) : Diary (backend P patience) → Prop
  | [] => True
  | e :: later => (∀ x remote id, evaluation? script e = some x → x.result = .ok remote →
      remote.isTruthy = false → remote.objectId = some id → ∃ between release rest,
        later = between ++ release :: rest ∧ release.moment.query = releaseOf id ∧
          evaluations script between = []) ∧ FreedBetween script later

/-- After so many evaluations of the function nothing has come of them yet. -/
structure Vain (script : String) (wait : FunctionWait) (began n : Nat)
    (diary : Diary (backend P patience)) : Prop where
  count : (evaluations script diary).length = n
  /-- Each was made when it was due. -/
  onTime : ∀ number x, (evaluations script diary)[number]? = some x → x.time = began + offset wait number
  falsy : ∀ x ∈ evaluations script diary, ∃ remote, x.result = .ok remote ∧ remote.isTruthy = false
  released : FreedBetween script diary

section Rounds

variable {diary more : Diary (backend P patience)}

theorem released_append (h : FreedBetween script diary) (h' : FreedBetween script more) :
    FreedBetween script (diary ++ more) := by
  induction diary with
  | nil => exact h'
  | cons e later ih =>
    refine ⟨fun x remote id hx hresult hfalsy hid => ?_, ih h.2⟩
    obtain ⟨between, release, rest, rfl, hquery, hnone⟩ := h.1 x remote id hx hresult hfalsy hid
    exact ⟨between, release, rest ++ more, by simp, hquery, hnone⟩

theorem released_of_none (h : evaluations script diary = []) : FreedBetween script diary := by
  induction diary with
  | nil => trivial
  | cons e later ih =>
    have hall := List.filterMap_eq_nil_iff.mp h
    refine ⟨fun x _ _ hx => ?_, ih (List.filterMap_eq_nil_iff.mpr fun e he => hall e (List.mem_cons_of_mem _ he))⟩
    exact absurd ((hall e List.mem_cons_self).symm.trans hx) nofun

theorem vain_zero (h : evaluations script diary = []) : Vain script wait began 0 diary where
  count := by rw [h]; rfl
  onTime := by rw [h]; nofun
  falsy := by rw [h]; nofun
  released := released_of_none h

/-- One more round that comes to nothing: an evaluation, and the release of its result. -/
theorem Vain.succ {turn drop : Diary (backend P patience)} {remote : RemoteObject}
    (h : Vain script wait began n diary)
    (hturn : evaluations script turn = [⟨began + offset wait n, .ok remote⟩]) (hfalsy : remote.isTruthy = false)
    (hdrop : evaluations script drop = [])
    (hreleased : ∀ id, remote.objectId = some id → ∃ e ∈ drop, e.moment.query = releaseOf id) :
    Vain script wait began (n + 1) (diary ++ turn ++ drop) := by
  have hall : evaluations script (diary ++ turn ++ drop) =
      evaluations script diary ++ [⟨began + offset wait n, .ok remote⟩] := by
    rw [evaluations_append, evaluations_append, hturn, hdrop, List.append_nil]
  refine ⟨?_, ?_, ?_, ?_⟩
  · rw [hall, List.length_append, h.count]
    rfl
  · intro number x hx
    rw [hall] at hx
    by_cases hnumber : number < n
    · rw [List.getElem?_append_left (h.count.symm ▸ hnumber)] at hx
      exact h.onTime number x hx
    · rw [List.getElem?_append_right (h.count.symm ▸ Nat.le_of_not_lt hnumber), h.count] at hx
      obtain ⟨hlt, rfl⟩ := List.getElem?_eq_some_iff.mp hx
      obtain rfl : number = n := by
        have hlast := hlt
        rw [List.length_singleton] at hlast
        omega
      simp
  · intro x hx
    rw [hall] at hx
    rcases List.mem_append.mp hx with hx | hx
    · exact h.falsy x hx
    · rw [List.mem_singleton.mp hx]
      exact ⟨remote, rfl, hfalsy⟩
  · rw [List.append_assoc]
    refine released_append h.released ?_
    obtain ⟨before, call, after, rfl, hbefore, hcall, hafter⟩ := List.filterMap_eq_cons_iff.mp hturn
    rw [List.append_assoc]
    refine released_append (released_of_none (List.filterMap_eq_nil_iff.mpr hbefore)) ⟨?_, ?_⟩
    · intro x remote' id hx hresult _ hid
      obtain rfl := Option.some.inj (hx.symm.trans hcall)
      obtain rfl := Except.ok.inj hresult
      obtain ⟨release, hmem, hquery⟩ := hreleased id hid
      obtain ⟨first, rest, rfl⟩ := List.append_of_mem hmem
      refine ⟨after ++ first, release, rest, by simp, hquery, ?_⟩
      rw [evaluations_append] at hdrop
      rw [evaluations_append, evaluations, hafter, (List.append_eq_nil_iff.mp hdrop).1]
      rfl
    · refine released_append (released_of_none hafter) (released_of_none hdrop)

end Rounds

/-! ### Waits -/

/-- How a wait that was begun at such a time may end: with such a diary, at such a time, and so. -/
inductive WaitEnds (script : String) (wait : FunctionWait) (bindings : List (Binding Handle))
    (args : List (Argument Handle)) (began : Nat) (diary : Diary (backend P patience)) (now : Nat) :
    Except Error Handle → Prop
  /-- The first result that counts as true is handed on when it is known. -/
  | found {n : Nat} {earlier last : Diary (backend P patience)} {h : Handle} (hdiary : diary = earlier ++ last)
      (hvain : Vain script wait began n earlier) (hinTime : 0 < wait.timeout → n < rounds wait)
      (hlast : evaluations script last = [⟨now, .ok h.remote⟩]) (htruthy : h.remote.isTruthy = true)
      (hnow : now = began + offset wait n) : WaitEnds script wait bindings args began diary now (.ok h)
  /-- An evaluation failed, when it was due. -/
  | failed {n : Nat} {earlier last : Diary (backend P patience)} {arguments : List Json} {e : Error}
      (hdiary : diary = earlier ++ last) (hvain : Vain script wait began n earlier)
      (hinTime : 0 < wait.timeout → n < rounds wait)
      (hlast : evaluations script last = [⟨now, .error e⟩] ∨ evaluations script last = [])
      (hfailed : Ends (backend P patience) (callFunction script arguments false).outcome
        (last.map (·.moment)) (.error e)) (hnow : now = began + offset wait n) :
      WaitEnds script wait bindings args began diary now (.error e)
  /-- At the deadline all evaluations have been made in vain. -/
  | expired (hlimit : 0 < wait.timeout) (hvain : Vain script wait began (rounds wait) diary)
      (hnow : now = began + wait.timeout) :
      WaitEnds script wait bindings args began diary now (.error (.waitExceeded wait.timeout))
  /-- A function of the program could not be lent to the page, and nothing was evaluated. -/
  | unlent {e : Error} (hnone : evaluations script diary = [])
      (hfailed : Ends (backend P patience) (bindings.forM lend).outcome (diary.map (·.moment)) (.error e))
      (hnow : now = began) : WaitEnds script wait bindings args began diary now (.error e)
  /-- An argument could not be sent, and nothing was evaluated. -/
  | unsent {earlier last : Diary (backend P patience)} {e : Error} (hdiary : diary = earlier ++ last)
      (hnone : evaluations script diary = [])
      (hfailed : Ends (backend P patience) (args.mapM callArgument).outcome (last.map (·.moment)) (.error e))
      (hnow : now = began) : WaitEnds script wait bindings args began diary now (.error e)

/-- For what a wait waits that was begun at such a time, with such a diary. -/
inductive Resting (script : String) (wait : FunctionWait) (began : Nat) (diary : Diary (backend P patience)) :
    Pause side.signature → Prop
  /-- For the time when the next evaluation is due. -/
  | between {n : Nat} (hvain : Vain script wait began (n + 1) diary)
      (hinTime : 0 < wait.timeout → n + 1 < rounds wait) :
      Resting script wait began diary ⟨.sleepUntil (began + offset wait (n + 1)), []⟩
  /-- For nothing, when there is no time limit and its patience is at an end. -/
  | exhausted (hnever : wait.timeout = 0) (hvain : Vain script wait began patience diary) :
      Resting script wait began diary ⟨.forever, []⟩

section Waits

variable (hP : P.Immediate) {diary : Diary (backend P patience)}
include hP

/-- A wait for so many more rounds, after as many as have come to nothing. -/
theorem paces_poll (bindings : List (Binding Handle)) (args : List (Argument Handle))
    (arguments : List Json) {fuel : Nat} (hvain : Vain script wait began n diary) (hinTime : 0 < wait.timeout → n < rounds wait)
    (hfuel : n + fuel = turns patience wait.timeout (pollInterval wait.polling)) :
    Paces (fun diary _ => Resting script wait began diary)
      (fun diary now => WaitEnds script wait bindings args began diary now)
      (poll script arguments wait.timeout (pollInterval wait.polling) (deadline wait began) fuel).outcome
      diary (began + offset wait n) := by
  induction fuel generalizing n diary with
  | zero =>
    have hnever : wait.timeout = 0 := by
      by_contra hlimit
      have hpos := Nat.pos_of_ne_zero hlimit
      have hn := hinTime hpos
      have hturns := rounds_le_turns patience hpos
      omega
    obtain rfl : n = patience := by simpa [turns, hnever] using hfuel
    exact paces_never (.exhausted hnever hvain)
  | succ fuel ih =>
    unfold poll
    refine paces_andThen.mpr (paces_callFunction hP fun turn r hturn hends => ?_)
    cases r with
    | error e => exact .failed rfl hvain hinTime (hturn.imp_right And.left) hends rfl
    | ok remote =>
      have hturn := hturn.resolve_right fun h => absurd h.2.choose_spec nofun
      dsimp only
      rcases htruthy : remote.isTruthy with _ | _
      · rw [if_neg Bool.false_ne_true]
        refine paces_andThen.mpr (paces_releaseResult hP fun drop (hdrop : evaluations script drop = []) hreleased => ?_)
        have hvain' := hvain.succ hturn htruthy hdrop hreleased
        refine paces_actionClock ?_
        by_cases hover : (deadline wait began).any (· ≤ began + offset wait n) = true
        · obtain ⟨hlimit, hdue, hall⟩ := eq_rounds hover hinTime
          rw [if_pos hover]
          exact .expired hlimit (hall ▸ hvain') (congrArg (began + ·) hdue)
        · obtain ⟨hpause, hround⟩ := offset_succ hover
          have hnext : began + offset wait n + ((deadline wait began).map fun d =>
              min (pollInterval wait.polling) (d - (began + offset wait n))).getD (pollInterval wait.polling) =
              began + offset wait (n + 1) := by
            rw [Nat.add_assoc, hpause]
          rw [if_neg hover]
          refine paces_actionSleep ?_ ?_
          · rw [hnext]
            exact .between hvain' hround
          · rw [hnext]
            exact ih hvain' hround (by omega)
      · rw [if_pos rfl]
        unfold wrap
        rw [← bind_pure (ask (.wrap remote))]
        refine paces_ask fun w => ?_
        refine .found (List.append_assoc _ _ _) hvain hinTime ?_ htruthy rfl
        rw [evaluations_append, hturn]
        rfl

theorem paces_waitFor (script : String) (wait : FunctionWait) (bindings : List (Binding Handle))
    (args : List (Argument Handle)) (began : Nat) :
    Paces (fun (diary : Diary (backend P patience)) _ => Resting script wait began diary)
      (fun diary now => WaitEnds script wait bindings args began diary now)
      (waitFor patience script wait bindings args).outcome [] began := by
  have hlending : Brief (backend P patience) (Query.Passes script) (bindings.forM lend) :=
    .forM (brief_lend hP) bindings
  have hsending : Brief (backend P patience) (Query.Passes script) (args.mapM callArgument) :=
    .mapM brief_callArgument args
  refine paces_andThen.mpr ((hlending _ [] began).ends.mono ?_)
  rintro last later r ⟨⟨rfl, lent, hdiary, hlent⟩, own, hsame, hends⟩
  obtain rfl : last = lent := hdiary
  obtain rfl : last = own := hsame
  cases r with
  | error e => exact .unlent (evaluations_none hlent) hends rfl
  | ok u =>
    have hrest : Paces (fun (diary : Diary (backend P patience)) _ => Resting script wait later diary)
        (fun diary now => WaitEnds script wait bindings args later diary now)
        (args.mapM callArgument >>= fun arguments => poll script arguments wait.timeout
          (pollInterval wait.polling) (deadline wait later)
          (turns patience wait.timeout (pollInterval wait.polling))).outcome last later := by
      refine paces_andThen.mpr ((hsending _ last later).ends.mono ?_)
      rintro _ time r ⟨⟨rfl, sent, rfl, hsent⟩, own, hsame, hends⟩
      obtain rfl := List.append_cancel_left hsame
      have hnone : evaluations script (last ++ sent) = [] := by
        rw [evaluations_append, evaluations_none hlent, evaluations_none hsent]
        rfl
      cases r with
      | error e => exact .unsent rfl hnone hends rfl
      | ok arguments =>
        have hvain : Vain script wait time 0 (last ++ sent) := vain_zero hnone
        have hpoll := paces_poll hP bindings args arguments hvain (fun _ => Nat.succ_pos _) (Nat.zero_add _)
        rw [offset_zero, Nat.add_zero] at hpoll
        exact hpoll
    dsimp only
    split
    · rename_i hnever
      rw [deadline, if_pos hnever] at hrest
      exact hrest
    · rename_i hlimit
      rw [deadline, if_neg hlimit] at hrest
      simp only [map_eq_pure_bind, bind_assoc, pure_bind]
      exact paces_actionClock hrest

end Waits

/-! ### Runs -/

/-- A wait for a page function, and where it is begun. -/
structure Waiting (P : Peer) where
  patience : Nat
  script : String
  wait : FunctionWait
  bindings : List (Binding Handle)
  args : List (Argument Handle)
  start : Timeline side.signature (World P)

namespace Waiting

variable (w : Waiting P)

/-- What is done to wait. -/
def activity : side.Task (Except Error Handle) :=
  (waitFor w.patience w.script w.wait w.bindings w.args).outcome

/-- The wait after so many turns of its own and of the background. -/
def run (turns : Nat) : Run side.signature (World P) (Except Error Handle) :=
  (Run.start (backend P w.patience) w.activity w.start none).finish (backend P w.patience) turns

/-- The questions of the wait in so many turns. -/
def diary (turns : Nat) : Diary (backend P w.patience) :=
  diaryOf (backend P w.patience) w.activity w.start turns

/-- How often the function was evaluated in so many turns. -/
def count (turns : Nat) : Nat := (evaluations w.script (w.diary turns)).length

/-- The wait has ended after so many turns. -/
def Over (turns : Nat) : Prop := ∃ r, (w.run turns).main = .done r

variable {w}

section Immediate

variable (hP : P.Immediate) (turns : Nat)
include hP

theorem paced : (w.run turns).Paced
    (fun (diary : Diary (backend P w.patience)) _ => Resting w.script w.wait w.start.clock diary)
    (fun diary now => WaitEnds w.script w.wait w.bindings w.args w.start.clock diary now)
    (w.diary turns) :=
  paced_of_run (paces_waitFor hP w.script w.wait w.bindings w.args w.start.clock) turns

theorem concludes {r : Except Error Handle} (hover : (w.run turns).main = .done r) :
    WaitEnds w.script w.wait w.bindings w.args w.start.clock (w.diary turns)
      (w.run turns).timeline.clock r := by
  obtain ⟨since, hpaces, hsince⟩ := w.paced hP turns
  rw [hover] at hpaces
  unfold Run.Since at hsince
  rw [hover] at hsince
  rw [hsince]
  exact hpaces

theorem resting {r : Activity.Request side.signature} {ws : List Activity.Token}
    {duties : List (Activity.Duty side.signature)} {next : r.Answer → side.Task (Except Error Handle)}
    {stop : (t : Activity.Token) → t ∈ ws → side.Task (Except Error Handle)}
    (hasleep : (w.run turns).main = .ask r ws duties next stop) :
    Resting w.script w.wait w.start.clock (w.diary turns) ⟨r, ws⟩ ∧
      ∀ time, r = .sleepUntil time → (w.run turns).timeline.clock ≤ time := by
  obtain ⟨since, hpaces, hsince⟩ := w.paced hP turns
  rw [hasleep] at hpaces
  unfold Run.Since at hsince
  rw [hasleep] at hsince
  exact ⟨hpaces.1 hsince.1, fun time htime => (hsince.2 time htime).2⟩

/-- A wait that is not over, and has not lost patience, waits for its next evaluation. -/
theorem asleep (hgoing : ¬ w.Over turns) (hpatient : w.wait.timeout = 0 → w.count turns < w.patience) :
    (0 < w.wait.timeout → w.count turns < rounds w.wait) ∧
      Timeline.wakeTime (w.run turns).main = some (w.start.clock + offset w.wait (w.count turns)) ∧
      Timeline.watched (w.run turns).main = [] ∧
      (w.run turns).timeline.clock ≤ w.start.clock + offset w.wait (w.count turns) := by
  cases hmain : (w.run turns).main with
  | done r => exact absurd ⟨r, hmain⟩ hgoing
  | ask r ws duties next stop =>
    obtain ⟨hresting, hclock⟩ := w.resting hP turns hmain
    cases hresting with
    | between hvain hinTime =>
      rw [count, hvain.count]
      exact ⟨hinTime, rfl, rfl, hclock _ rfl⟩
    | exhausted hnever hvain =>
      exact absurd (hpatient hnever) (by rw [count, hvain.count]; exact Nat.lt_irrefl _)

/-- If only the background comes to rest at every instant, there are as many evaluations as the time and
the patience of the wait allow. -/
theorem exists_count (hrest : (w.run 0).Restful (backend P w.patience)) (n : Nat)
    (hpatient : w.wait.timeout = 0 → n ≤ w.patience) :
    ∃ turns, n ≤ w.count turns ∨ w.Over turns := by
  induction n with
  | zero => exact ⟨0, Or.inl (Nat.zero_le _)⟩
  | succ n ih =>
    obtain ⟨turns, hturns⟩ := ih fun hnever => Nat.le_of_succ_le (hpatient hnever)
    by_cases hover : w.Over turns
    · exact ⟨turns, Or.inr hover⟩
    by_cases hmore : n + 1 ≤ w.count turns
    · exact ⟨turns, Or.inl hmore⟩
    have hcount : w.count turns = n := by
      have := hturns.resolve_right hover
      omega
    obtain ⟨-, hwake, hwatched, hclock⟩ := w.asleep hP turns hover fun hnever => by
      have := hpatient hnever
      omega
    obtain ⟨more, hlater, hnext⟩ := Run.exists_woken (hrest.finish turns) (Run.finish_limit turns _)
      hwake hwatched hclock
    have hsame : ((w.run 0).finish (backend P w.patience) turns).finish (backend P w.patience) more =
        w.run (turns + more) := (Run.finish_add turns more _).symm
    rw [hsame] at hlater hnext
    refine ⟨turns + more, ?_⟩
    by_cases hover' : w.Over (turns + more)
    · exact Or.inr hover'
    by_cases hmore' : n + 1 ≤ w.count (turns + more)
    · exact Or.inl hmore'
    -- it would wait for an evaluation that was due before
    obtain ⟨-, hwake', -, -⟩ := w.asleep hP (turns + more) hover' fun hnever => by
      have := hpatient hnever
      omega
    have hlt := hnext _ hwake'
    have hmono := offset_mono w.wait (show w.count (turns + more) ≤ w.count turns by omega)
    omega

end Immediate

end Waiting

/-- When the commands of the peer take no time, a wait ends as `WaitEnds` says and waits meanwhile as
`Resting` says: evaluations that come to nothing follow each other when they are due, the first that counts
as true ends the wait at once, and so does one that fails; else it fails at the deadline and not before.
And it comes to that, unless the background goes on for ever at one instant: with a time limit it ends, and
without one it evaluates the function as often as its patience allows, or ends before. -/
theorem schedule_of_wait (hP : P.Immediate) (w : Waiting P) :
    (∀ turns r, (w.run turns).main = .done r →
      WaitEnds w.script w.wait w.bindings w.args w.start.clock (w.diary turns)
        (w.run turns).timeline.clock r) ∧
    (∀ turns r ws duties next stop, (w.run turns).main = .ask r ws duties next stop →
      Resting w.script w.wait w.start.clock (w.diary turns) ⟨r, ws⟩ ∧
        ∀ time, r = .sleepUntil time → (w.run turns).timeline.clock ≤ time) ∧
    ((w.run 0).Restful (backend P w.patience) →
      (0 < w.wait.timeout → ∃ turns, w.Over turns) ∧
      (w.wait.timeout = 0 → ∃ turns, w.patience ≤ w.count turns ∨ w.Over turns)) := by
  refine ⟨fun turns r hover => w.concludes hP turns hover,
    fun turns r ws duties next stop hasleep => w.resting hP turns hasleep, fun hrest => ⟨fun hlimit => ?_, fun hnever => ?_⟩⟩
  · obtain ⟨turns, hturns⟩ := w.exists_count hP hrest (rounds w.wait) fun hnever =>
      absurd hnever (Nat.ne_of_gt hlimit)
    refine ⟨turns, hturns.elim (fun hall => ?_) id⟩
    by_contra hgoing
    obtain ⟨hinTime, -, -, -⟩ := w.asleep hP turns hgoing fun hnever => absurd hnever (Nat.ne_of_gt hlimit)
    have hlast := hinTime hlimit
    omega
  · exact w.exists_count hP hrest w.patience fun _ => Nat.le_refl _

/-! ### A page where nothing counts as true -/

/-- A page that gives a reference to nothing, whatever it is asked. -/
def barren : Peer where
  State := Unit
  command _ _ _ := (⟨0, .ok (.object [("result", .object [
    ("subtype", .string "null"), ("objectId", .string "1")])])⟩, [], ())
  listen _ := .ok ()
  close _ := (.ok (), ())

/-- To wait 20 ms for a function, with every frame. -/
def barrenWaiting : Waiting barren where
  patience := 0
  script := "() => null"
  wait := ⟨20, .frame⟩
  bindings := []
  args := []
  start := Timeline.init (World.init () "bundle")

/-- The function is evaluated at once, after 16 ms and at the deadline; then the wait fails. -/
theorem schedule_of_barren :
    (evaluations barrenWaiting.script (barrenWaiting.diary 4)).map (·.time) = [0, 16, 20] ∧
      WaitEnds barrenWaiting.script barrenWaiting.wait [] [] 0 (barrenWaiting.diary 4) 20
        (.error (.waitExceeded 20)) ∧
      (barrenWaiting.run 0).Restful (backend barren 0) ∧ ∃ turns, barrenWaiting.Over turns := by
  have himmediate : barren.Immediate := fun _ _ _ => rfl
  have hmain : (barrenWaiting.run 4).main = .done (.error (.waitExceeded 20)) := rfl
  have htasks : ∀ before ≤ 4, (barrenWaiting.run before).timeline.tasks.isEmpty = true := by
    decide +kernel
  have hrest : (barrenWaiting.run 0).Restful (backend barren 0) := by
    refine Run.restful_of_over 4 rfl fun before hbefore _ task htask => ?_
    have hnone := List.isEmpty_iff.mp (htasks before hbefore)
    exact absurd (hnone ▸ htask : task ∈ []) List.not_mem_nil
  obtain ⟨hconcludes, -, hends⟩ := schedule_of_wait himmediate barrenWaiting
  refine ⟨rfl, hconcludes 4 _ hmain, hrest, (hends hrest).1 (by decide)⟩

end Wayfind.Remote
