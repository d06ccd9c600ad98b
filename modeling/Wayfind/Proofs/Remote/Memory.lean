/-
What the program remembers of a page, and what the record of its commands says.

The program remembers the reference to the global object, the handle of the utility bundle
and the names of the functions it installed; all of it dies with the script context.  The
record shows the same: what has succeeded since the last command whose failure told of a
dead context.  `Remembers` says that both agree, and what each question does to that.

`Proper` says of a moment of the record what the memory is there for: that calls go to the
global object of the living context, and that nothing is asked for twice.
-/
import Wayfind.Proofs.Remote.Commands

namespace Wayfind.Remote

open Protocol (RemoteObject Evaluation)

variable {P : Peer}

/-! ### Moments of a record -/

namespace Instant

/-- The command that was sent, with its parameters and what came of it. -/
def command? : Instant P → Option (String × Json × Except Error Json)
  | ⟨w, .command method params⟩ => some (method, params, (P.command method params w.peer).1.outcome)
  | _ => none

/-- The reply to an evaluation of an expression, with a word on how to return the value or without. -/
def evaluated? (source : String) (worded : Bool) (i : Instant P) : Option Evaluation :=
  match i.command? with
  | some (method, params, .ok reply) =>
    if method = "Runtime.evaluate" ∧ (params.member "expression").string? = some source ∧
        (params.member? "returnByValue").isSome = worded then Evaluation.reader.ofJson? reply
    else none
  | _ => none

/-- The reference to the global object that was given. -/
def globalGiven (i : Instant P) : Option String :=
  (i.evaluated? "globalThis" false).bind (·.result.objectId)

/-- The utility bundle that was given. -/
def utilityGiven (source : String) (i : Instant P) : Option RemoteObject :=
  match i.evaluated? source true with
  | some ⟨result, none⟩ => some result
  | _ => none

/-- A command has failed and told of a dead script context.  Evaluations are not asked. -/
def tellsDeath (i : Instant P) : Bool :=
  match i.command? with
  | some (method, _, .error e) => method != "Runtime.evaluate" && isStale e
  | _ => false

/-- The context is dead, or the handle of the utility bundle that is remembered is disposed. -/
def losesUtility (i : Instant P) : Bool :=
  i.tellsDeath || match i with
    | ⟨w, .dispose h⟩ => w.utility.any (·.id == h.id)
    | _ => false

/-- The object on which a page function is called. -/
def target? (i : Instant P) : Option Json :=
  match i.command? with
  | some (method, params, _) =>
    if method = "Runtime.callFunctionOn" then some (params.member "objectId") else none
  | none => none

/-- A page function is called for a reference to its result. -/
def calls (script : String) (i : Instant P) : Bool :=
  match i.command? with
  | some (method, params, _) => method == "Runtime.callFunctionOn" &&
    (params.member "functionDeclaration").string? == some script &&
    (params.member "returnByValue").bool? == some false
  | none => false

/-- The page is told to release a reference. -/
def isRelease (i : Instant P) : Bool :=
  match i.command? with
  | some (method, _, _) => method == "Runtime.releaseObject"
  | none => false

/-- The raw binding of a function has been added. -/
def adds (name : String) (i : Instant P) : Bool :=
  match i.command? with
  | some (method, params, .ok _) =>
    method == "Runtime.addBinding" && (params.member "name").string? == some (bindingMark ++ name)
  | _ => false

/-- The function has been wrapped around its raw binding. -/
def wraps (name : String) (i : Instant P) : Bool :=
  match i.command? with
  | some (method, params, .ok reply) => method == "Runtime.callFunctionOn" &&
    (params.member "functionDeclaration").string? == some Script.installBinding &&
    (((params.member "arguments").item 0).member "value").string? == some name &&
    (((params.member "arguments").item 1).member "value").string? == some (bindingMark ++ name) &&
    (Evaluation.reader.ofJson? reply).any (·.exception.isNone)
  | _ => false

section Evaluating

variable (w : World P) (doc : Json)

/-- Evaluations are not asked whether the context is dead. -/
theorem losesUtility_evaluate : losesUtility ⟨w, .command "Runtime.evaluate" doc⟩ = false := by
  simp only [losesUtility, tellsDeath, command?]
  split <;> simp_all

theorem tellsDeath_evaluate : tellsDeath ⟨w, .command "Runtime.evaluate" doc⟩ = false :=
  (Bool.or_eq_false_iff.mp (losesUtility_evaluate w doc)).1

/-- The parameters with which the global object is asked for. -/
abbrev globalExpression : Json := params [("expression", .string "globalThis")]

/-- The parameters with which the utility bundle is asked for. -/
abbrev utilityExpression (source : String) : Json :=
  params [("expression", .string source), ("returnByValue", .bool false)]

variable {w doc} {method expression : String} {worded : Bool}

/-- What is asked for in these words is the evaluation in the reply, if there is one. -/
theorem evaluated_eq (hexpression : (doc.member "expression").string? = some expression)
    (hworded : (doc.member? "returnByValue").isSome = worded) :
    evaluated? expression worded ⟨w, .command "Runtime.evaluate" doc⟩ =
      (P.command "Runtime.evaluate" doc w.peer).1.outcome.toOption.bind Evaluation.reader.ofJson? := by
  simp only [evaluated?, command?]
  cases (P.command "Runtime.evaluate" doc w.peer).1.outcome with
  | ok reply => exact if_pos ⟨rfl, hexpression, hworded⟩
  | error e => rfl

/-- What is asked for in other words is something else. -/
theorem evaluated_worded (h : (doc.member? "returnByValue").isSome ≠ worded) :
    evaluated? expression worded ⟨w, .command method doc⟩ = none := by
  simp only [evaluated?, command?]
  cases (P.command method doc w.peer).1.outcome with
  | ok reply => exact if_neg fun hc => h hc.2.2
  | error e => rfl

/-- A command that is no evaluation gives nothing. -/
theorem evaluated_other (h : method ≠ "Runtime.evaluate") :
    evaluated? expression worded ⟨w, .command method doc⟩ = none := by
  simp only [evaluated?, command?]
  cases (P.command method doc w.peer).1.outcome with
  | ok reply => exact if_neg fun hc => h hc.1
  | error e => rfl

theorem utilityGiven_none {source : String} {i : Instant P} (h : i.evaluated? source true = none) :
    i.utilityGiven source = none := by
  rw [utilityGiven, h]

theorem globalGiven_none {i : Instant P} (h : i.evaluated? "globalThis" false = none) :
    i.globalGiven = none := by
  rw [globalGiven, h]
  rfl

end Evaluating

end Instant

/-- The moments after the last of some kind. -/
def since (ends : Instant P → Bool) (record : List (Instant P)) : List (Instant P) :=
  (record.reverse.takeWhile fun i => !ends i).reverse

/-- The life of the script context: the moments since the last command that told of a dead one. -/
abbrev lifetime (record : List (Instant P)) : List (Instant P) := since Instant.tellsDeath record

/-- The function is installed in the page. -/
def isInstalled (name : String) (record : List (Instant P)) : Bool :=
  record.any (·.adds name) && record.any (·.wraps name)

/-- Something holds at every moment of a record, after the moments before. -/
def Throughout (T : List (Instant P) → Instant P → Prop) (record : List (Instant P)) : Prop :=
  ∀ before i after, record = before ++ i :: after → T before i

/-- Nothing has been given twice. -/
structure Single (source : String) (record : List (Instant P)) : Prop where
  /-- In one life the global object is given once. -/
  global : ((lifetime record).filterMap Instant.globalGiven).length ≤ 1
  /-- In one life the utility bundle is given once, unless its handle is disposed. -/
  utility : ((since Instant.losesUtility record).filterMap (Instant.utilityGiven source)).length ≤ 1

/-- After these moments the moment is as the memory is there for. -/
structure Proper (source : String) (before : List (Instant P)) (i : Instant P) : Prop where
  /-- Calls go to the global object that was given last, in the same life. -/
  target : ∀ object, i.target? = some object →
    ∃ ref, ((lifetime before).filterMap Instant.globalGiven).getLast? = some ref ∧ object = .string ref
  single : Single source (before ++ [i])

section Records

variable {ends : Instant P → Bool} {record more : List (Instant P)} {i : Instant P}
  {T : List (Instant P) → Instant P → Prop} {name : String}

theorem since_concat (ends : Instant P → Bool) (record : List (Instant P)) (i : Instant P) :
    since ends (record ++ [i]) = if ends i then [] else since ends record ++ [i] := by
  unfold since
  rw [List.reverse_append, List.reverse_singleton, List.singleton_append, List.takeWhile_cons]
  cases ends i <;> simp

theorem since_concat_of (h : ends i = false) (record : List (Instant P)) :
    since ends (record ++ [i]) = since ends record ++ [i] := by
  rw [since_concat, h]
  rfl

theorem since_concat_end (h : ends i = true) (record : List (Instant P)) :
    since ends (record ++ [i]) = [] := by
  rw [since_concat, h]
  rfl

theorem since_append (h : ∀ i ∈ more, ends i = false) :
    since ends (record ++ more) = since ends record ++ more := by
  induction more using List.reverseRecOn with
  | nil => simp
  | append_singleton more i ih =>
    have hmore : ∀ j ∈ more, ends j = false := fun j hj => h j (List.mem_append_left _ hj)
    rw [← List.append_assoc, since_concat_of (h i (by simp)), ih hmore, List.append_assoc]

theorem throughout_nil : Throughout T ([] : List (Instant P)) := by
  intro before i after hnil
  exact absurd hnil.symm (by simp)

theorem Throughout.concat (h : Throughout T record) (hi : T record i) : Throughout T (record ++ [i]) := by
  intro before j after hsplit
  cases after using List.reverseRecOn with
  | nil =>
    obtain ⟨rfl, hij⟩ := List.append_inj' hsplit rfl
    obtain rfl := List.singleton_inj.mp hij
    exact hi
  | append_singleton after k =>
    rw [← List.cons_append, ← List.append_assoc] at hsplit
    exact h before j after (List.append_inj' hsplit rfl).1

theorem Throughout.mono {T' : List (Instant P) → Instant P → Prop} (h : Throughout T record)
    (hT : ∀ before i, T before i → T' before i) : Throughout T' record :=
  fun before i after hsplit => hT before i (h before i after hsplit)

/-- A moment that gives nothing. -/
theorem Single.concat {source : String} (h : Single source record) (hglobal : i.globalGiven = none)
    (hutility : i.utilityGiven source = none) : Single source (record ++ [i]) where
  global := by
    rw [lifetime, since_concat]
    split
    · exact Nat.zero_le 1
    · rw [List.filterMap_append, List.filterMap_cons_none hglobal, List.filterMap_nil, List.append_nil]
      exact h.global
  utility := by
    rw [since_concat]
    split
    · exact Nat.zero_le 1
    · rw [List.filterMap_append, List.filterMap_cons_none hutility, List.filterMap_nil, List.append_nil]
      exact h.utility

theorem isInstalled_append (h : isInstalled name record = true) (more : List (Instant P)) :
    isInstalled name (record ++ more) = true := by
  simp only [isInstalled, Bool.and_eq_true, List.any_append, Bool.or_eq_true] at h ⊢
  exact ⟨.inl h.1, .inl h.2⟩

end Records

/-! ### The memory -/

/-- What is remembered is what the record shows. -/
structure Remembers (source : String) (x : Recorded P) : Prop where
  bundle : x.1.utilitySource = source
  global : (lifetime x.2).filterMap Instant.globalGiven = x.1.global.toList
  utility : (since Instant.losesUtility x.2).filterMap (Instant.utilityGiven source) =
    (x.1.utility.filter fun h => !x.1.isDisposed h).toList.map Handle.remote
  /-- The handle that is remembered has been made. -/
  made : ∀ h, x.1.utility = some h → h.id < x.1.ledger.size
  installed : ∀ name ∈ x.1.installed, isInstalled name (lifetime x.2) = true

theorem remembers_init (peer : P.State) (source : String) :
    Remembers source ((World.init peer source, []) : Recorded P) where
  bundle := rfl
  global := rfl
  utility := rfl
  made := nofun
  installed := nofun

theorem length_toList_le {α : Type} (o : Option α) : o.toList.length ≤ 1 := by
  cases o <;> simp

/-- The question changes nothing that is remembered, and the record shows nothing of it. -/
def Query.isPassive : Query → Bool
  | command _ _ | rememberGlobal _ | rememberUtility _ | useUtility _ | forget | wrap _ | dispose _
  | markInstalled _ => false
  | _ => true

namespace Remembers

variable {source : String} {x : Recorded P}

/-- Where what is remembered is what the record shows, nothing was given twice. -/
theorem single (h : Remembers source x) : Single source x.2 where
  global := by
    rw [h.global]
    exact length_toList_le _
  utility := by
    rw [h.utility, List.length_map]
    exact length_toList_le _

/-- A question that gives nothing and ends nothing. -/
theorem tell (h : Remembers source x) {q : Query} (hlife : Instant.losesUtility ⟨x.1, q⟩ = false)
    (hglobal : Instant.globalGiven ⟨x.1, q⟩ = none)
    (hutility : Instant.utilityGiven source ⟨x.1, q⟩ = none)
    (hsource : (x.tell q).1.utilitySource = x.1.utilitySource)
    (hglobals : (x.tell q).1.global = x.1.global) (hutilities : (x.tell q).1.utility = x.1.utility)
    (hinstalled : (x.tell q).1.installed = x.1.installed)
    (hsize : x.1.ledger.size ≤ (x.tell q).1.ledger.size)
    (hdisposed : ∀ h, x.1.utility = some h → (x.tell q).1.isDisposed h = x.1.isDisposed h) :
    Remembers source (x.tell q) := by
  have hdeath : Instant.tellsDeath ⟨x.1, q⟩ = false := (Bool.or_eq_false_iff.mp hlife).1
  refine ⟨hsource.trans h.bundle, ?_, ?_, ?_, ?_⟩
  · rw [hglobals, ← h.global]
    show (since Instant.tellsDeath (x.2 ++ [⟨x.1, q⟩])).filterMap Instant.globalGiven = _
    rw [since_concat_of hdeath, List.filterMap_append, List.filterMap_cons_none hglobal,
      List.filterMap_nil, List.append_nil]
  · have hfilter : (x.tell q).1.utility.filter (fun h => !(x.tell q).1.isDisposed h) =
        x.1.utility.filter fun h => !x.1.isDisposed h := by
      rw [hutilities]
      cases hknown : x.1.utility with
      | none => rfl
      | some h => simp only [Option.filter, hdisposed h hknown]
    rw [hfilter, ← h.utility]
    show (since Instant.losesUtility (x.2 ++ [⟨x.1, q⟩])).filterMap (Instant.utilityGiven source) = _
    rw [since_concat_of hlife, List.filterMap_append, List.filterMap_cons_none hutility,
      List.filterMap_nil, List.append_nil]
  · intro handle hhandle
    rw [hutilities] at hhandle
    exact Nat.lt_of_lt_of_le (h.made handle hhandle) hsize
  · intro name hname
    rw [hinstalled] at hname
    show isInstalled name (since Instant.tellsDeath (x.2 ++ [⟨x.1, q⟩])) = true
    rw [since_concat_of hdeath]
    exact isInstalled_append (h.installed name hname) _

theorem passive (h : Remembers source x) {q : Query} (hq : q.isPassive = true) :
    Remembers source (x.tell q) := by
  cases q with
  | command | rememberGlobal | rememberUtility | useUtility | forget | wrap | dispose | markInstalled =>
    exact absurd hq nofun
  | listen =>
    have hworld : ∃ subscribed, (x.tell .listen).1 = { x.1 with subscribed := subscribed } := by
      unfold Recorded.tell World.answer
      split
      · exact ⟨true, rfl⟩
      · exact ⟨x.1.subscribed, rfl⟩
    obtain ⟨subscribed, hworld⟩ := hworld
    refine h.tell rfl rfl rfl ?_ ?_ ?_ ?_ ?_ ?_ <;> rw [hworld]
    exact fun _ _ => rfl
  | _ => exact h.tell rfl rfl rfl rfl rfl rfl rfl (Nat.le_refl _) fun _ _ => rfl

/-- A command that gives nothing and does not tell of a dead context. -/
theorem command (h : Remembers source x) {method : String} {params : Json}
    (hdeath : Instant.tellsDeath ⟨x.1, .command method params⟩ = false)
    (hglobal : Instant.globalGiven ⟨x.1, .command method params⟩ = none)
    (hutility : Instant.utilityGiven source ⟨x.1, .command method params⟩ = none) :
    Remembers source (x.tell (.command method params)) :=
  h.tell (by simp [Instant.losesUtility, hdeath]) hglobal hutility rfl rfl rfl rfl (Nat.le_refl _)
    fun _ _ => rfl

/-- A new handle is not the one that is remembered. -/
theorem wrap (h : Remembers source x) (remote : RemoteObject) :
    Remembers source (x.tell (.wrap remote)) := by
  have hledger : (x.tell (.wrap remote)).1.ledger = x.1.ledger.push false := rfl
  refine h.tell rfl rfl rfl rfl rfl rfl rfl ?_ ?_
  · rw [hledger, Array.size_push]
    exact Nat.le_succ _
  · intro handle hhandle
    have hlt := h.made handle hhandle
    unfold World.isDisposed
    rw [hledger, Array.getElem?_push, if_neg (Nat.ne_of_lt hlt)]

/-- Once a handle is disposed, it is not the one that is remembered. -/
theorem dispose (h : Remembers source x) (handle : Handle) : Remembers source (x.tell (.dispose handle)) := by
  have hledger : (x.tell (.dispose handle)).1.ledger = x.1.ledger.setIfInBounds handle.id true := rfl
  have hsize : (x.tell (.dispose handle)).1.ledger.size = x.1.ledger.size := by
    rw [hledger, Array.size_setIfInBounds]
  rcases hloses : Instant.losesUtility ⟨x.1, .dispose handle⟩ with _ | _
  · refine h.tell hloses rfl rfl rfl rfl rfl rfl (Nat.le_of_eq hsize.symm) fun known hknown => ?_
    have hother : x.1.utility.any (fun k => k.id == handle.id) = false := hloses
    rw [hknown] at hother
    have hne : known.id ≠ handle.id := beq_eq_false_iff_ne.mp hother
    unfold World.isDisposed
    rw [hledger, Array.getElem?_setIfInBounds, if_neg hne.symm]
  · have hlife : lifetime (x.tell (.dispose handle)).2 = lifetime x.2 ++ [⟨x.1, .dispose handle⟩] :=
      since_concat_of rfl x.2
    refine ⟨h.bundle, ?_, ?_, fun known hknown => hsize ▸ h.made known hknown, fun name hname => ?_⟩
    · rw [hlife, List.filterMap_append, h.global]
      exact List.append_nil _
    · have hsince : since Instant.losesUtility (x.tell (.dispose handle)).2 = [] :=
        since_concat_end hloses x.2
      have hsame : x.1.utility.any (fun k => k.id == handle.id) = true := hloses
      obtain ⟨known, hknown, hid⟩ := (Option.any_eq_true _ _).mp hsame
      have hid : known.id = handle.id := beq_iff_eq.mp hid
      have hgone : (x.tell (.dispose handle)).1.isDisposed known = true := by
        unfold World.isDisposed
        rw [hledger, Array.getElem?_setIfInBounds, if_pos hid.symm, if_pos (hid ▸ h.made known hknown)]
        rfl
      have hutility : (x.tell (.dispose handle)).1.utility = some known := hknown
      rw [hsince, hutility, Option.filter, hgone]
      rfl
    · rw [hlife]
      exact isInstalled_append (h.installed name hname) _

/-- What is forgotten is what the life of the context showed. -/
theorem forget {x : Recorded P} (hsource : x.1.utilitySource = source)
    (hglobal : (lifetime x.2).filterMap Instant.globalGiven = [])
    (hutility : (since Instant.losesUtility x.2).filterMap (Instant.utilityGiven source) = []) :
    Remembers source (x.tell .forget) where
  bundle := hsource
  global := by
    show (since Instant.tellsDeath (x.2 ++ [⟨x.1, .forget⟩])).filterMap Instant.globalGiven = []
    rw [since_concat_of rfl, List.filterMap_append, hglobal]
    rfl
  utility := by
    show (since Instant.losesUtility (x.2 ++ [⟨x.1, .forget⟩])).filterMap (Instant.utilityGiven source) = []
    rw [since_concat_of rfl, List.filterMap_append, hutility]
    rfl
  made := nofun
  installed := nofun

/-- The global object that was given is remembered. -/
theorem rememberGlobal (h : Remembers source x) (hnone : x.1.global = none) {params : Json} {id : String}
    (hgiven : Instant.globalGiven ⟨x.1, .command "Runtime.evaluate" params⟩ = some id)
    (hutility : Instant.utilityGiven source ⟨x.1, .command "Runtime.evaluate" params⟩ = none)
    (hlife : Instant.losesUtility ⟨x.1, .command "Runtime.evaluate" params⟩ = false) :
    Single source (x.tell (.command "Runtime.evaluate" params)).2 ∧
      Remembers source ((x.tell (.command "Runtime.evaluate" params)).tell (.rememberGlobal id)) := by
  let y := x.tell (.command "Runtime.evaluate" params)
  have hdeath : Instant.tellsDeath ⟨x.1, .command "Runtime.evaluate" params⟩ = false :=
    (Bool.or_eq_false_iff.mp hlife).1
  have hglobals : (lifetime y.2).filterMap Instant.globalGiven = [id] := by
    show (since Instant.tellsDeath (x.2 ++ [_])).filterMap Instant.globalGiven = [id]
    rw [since_concat_of hdeath, List.filterMap_append, h.global, hnone, List.filterMap_cons_some hgiven]
    rfl
  have hutilities : (since Instant.losesUtility y.2).filterMap (Instant.utilityGiven source) =
      (x.1.utility.filter fun h => !x.1.isDisposed h).toList.map Handle.remote := by
    show (since Instant.losesUtility (x.2 ++ [_])).filterMap (Instant.utilityGiven source) = _
    rw [since_concat_of hlife, List.filterMap_append, h.utility, List.filterMap_cons_none hutility,
      List.filterMap_nil, List.append_nil]
  have hlifetime : lifetime (y.tell (.rememberGlobal id)).2 = lifetime y.2 ++ [⟨y.1, .rememberGlobal id⟩] :=
    since_concat_of rfl y.2
  refine ⟨⟨?_, ?_⟩, h.bundle, ?_, ?_, h.made, fun name hname => ?_⟩
  · rw [hglobals]
    exact Nat.le_refl 1
  · rw [hutilities, List.length_map]
    exact length_toList_le _
  · rw [hlifetime, List.filterMap_append, hglobals]
    rfl
  · have hsince : since Instant.losesUtility (y.tell (.rememberGlobal id)).2 =
        since Instant.losesUtility y.2 ++ [⟨y.1, .rememberGlobal id⟩] := since_concat_of rfl y.2
    rw [hsince, List.filterMap_append, hutilities]
    exact List.append_nil _
  · have hlast : lifetime y.2 = lifetime x.2 ++ [⟨x.1, .command "Runtime.evaluate" params⟩] :=
      since_concat_of hdeath x.2
    rw [hlifetime, hlast]
    exact isInstalled_append (isInstalled_append (h.installed name hname) _) _

/-- The handle of the utility bundle that was given is remembered. -/
theorem rememberUtility (h : Remembers source x)
    (hnone : (x.1.utility.filter fun h => !x.1.isDisposed h) = none) {params : Json} {bundle : RemoteObject}
    (hgiven : Instant.utilityGiven source ⟨x.1, .command "Runtime.evaluate" params⟩ = some bundle)
    (hglobal : Instant.globalGiven ⟨x.1, .command "Runtime.evaluate" params⟩ = none)
    (hlife : Instant.losesUtility ⟨x.1, .command "Runtime.evaluate" params⟩ = false) :
    Single source (x.tell (.command "Runtime.evaluate" params)).2 ∧
      Remembers source (((x.tell (.command "Runtime.evaluate" params)).tell (.wrap bundle)).tell
        (.rememberUtility (x.1.wrap bundle).1)) := by
  let y := x.tell (.command "Runtime.evaluate" params)
  let z := y.tell (.wrap bundle)
  have hdeath : Instant.tellsDeath ⟨x.1, .command "Runtime.evaluate" params⟩ = false :=
    (Bool.or_eq_false_iff.mp hlife).1
  have hglobals : (lifetime y.2).filterMap Instant.globalGiven = x.1.global.toList := by
    show (since Instant.tellsDeath (x.2 ++ [_])).filterMap Instant.globalGiven = _
    rw [since_concat_of hdeath, List.filterMap_append, h.global, List.filterMap_cons_none hglobal,
      List.filterMap_nil, List.append_nil]
  have hutilities : (since Instant.losesUtility y.2).filterMap (Instant.utilityGiven source) = [bundle] := by
    show (since Instant.losesUtility (x.2 ++ [_])).filterMap (Instant.utilityGiven source) = _
    rw [since_concat_of hlife, List.filterMap_append, h.utility, hnone, List.filterMap_cons_some hgiven]
    rfl
  have hlifetime : lifetime (z.tell (.rememberUtility (x.1.wrap bundle).1)).2 =
      lifetime y.2 ++ [⟨y.1, .wrap bundle⟩, ⟨z.1, .rememberUtility (x.1.wrap bundle).1⟩] := by
    show since Instant.tellsDeath ((y.2 ++ [_]) ++ [_]) = _
    rw [List.append_assoc]
    exact since_append (by simp [Instant.tellsDeath, Instant.command?])
  refine ⟨⟨?_, ?_⟩, h.bundle, ?_, ?_, ?_, fun name hname => ?_⟩
  · rw [hglobals]
    exact length_toList_le _
  · rw [hutilities]
    exact Nat.le_refl 1
  · rw [hlifetime, List.filterMap_append, hglobals]
    exact List.append_nil _
  · have hsince : since Instant.losesUtility (z.tell (.rememberUtility (x.1.wrap bundle).1)).2 =
        since Instant.losesUtility y.2 ++
          [⟨y.1, .wrap bundle⟩, ⟨z.1, .rememberUtility (x.1.wrap bundle).1⟩] := by
      show since Instant.losesUtility ((y.2 ++ [_]) ++ [_]) = _
      rw [List.append_assoc]
      exact since_append (by simp [Instant.losesUtility, Instant.tellsDeath, Instant.command?])
    have hlive : (z.tell (.rememberUtility (x.1.wrap bundle).1)).1.isDisposed (x.1.wrap bundle).1 = false := by
      show ((x.1.ledger.push false)[x.1.ledger.size]?).getD true = false
      rw [Array.getElem?_push_size]
      rfl
    have hutility : (z.tell (.rememberUtility (x.1.wrap bundle).1)).1.utility =
        some (x.1.wrap bundle).1 := rfl
    rw [hsince, List.filterMap_append, hutilities, hutility, Option.filter, hlive]
    rfl
  · intro known hknown
    obtain rfl := Option.some.inj hknown
    show x.1.ledger.size < (x.1.ledger.push false).size
    rw [Array.size_push]
    exact Nat.lt_succ_self _
  · have hlast : lifetime y.2 = lifetime x.2 ++ [⟨x.1, .command "Runtime.evaluate" params⟩] :=
      since_concat_of hdeath x.2
    rw [hlifetime, hlast]
    exact isInstalled_append (isInstalled_append (h.installed name hname) _) _

/-- The name of a function is remembered once it is installed. -/
theorem markInstalled (h : Remembers source x) {name : String}
    (hname : isInstalled name (lifetime x.2) = true) :
    Remembers source (x.tell (.markInstalled name)) := by
  have hlife : lifetime (x.tell (.markInstalled name)).2 =
      lifetime x.2 ++ [⟨x.1, .markInstalled name⟩] := since_concat_of rfl x.2
  refine ⟨h.bundle, ?_, ?_, h.made, ?_⟩
  · rw [hlife, List.filterMap_append, h.global]
    exact List.append_nil _
  · have hsince : since Instant.losesUtility (x.tell (.markInstalled name)).2 =
        since Instant.losesUtility x.2 ++ [⟨x.1, .markInstalled name⟩] := since_concat_of rfl x.2
    rw [hsince, List.filterMap_append, h.utility]
    exact List.append_nil _
  · intro other hother
    rw [hlife]
    rcases List.mem_cons.mp hother with rfl | hother
    · exact isInstalled_append hname _
    · exact isInstalled_append (h.installed other hother) _

end Remembers

end Wayfind.Remote
