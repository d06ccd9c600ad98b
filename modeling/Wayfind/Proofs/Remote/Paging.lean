/-
Pages that give their matches batch by batch.

A pager is a page whose iterator holds a list of items: each batch takes the next ones out
of it, in an array that lists them, and no command fails.  It may take its time.  What the
program is given by such a page is said here action by action; what it owes for it is said
where the account is kept.
-/
import Wayfind.Proofs.Remote.Handles

namespace Wayfind.Remote

open Activity (Prompt prompt_andThen prompt_attempt prompt_bind)
open PageSide (Action)
open Protocol (RemoteObject Property Evaluation)
open Wayfind.Query (batchScript batchSize iteratorScript textArgument Matches)

/-- How far the iteration in a page has come. -/
inductive Cue where
  /-- There is no iterator yet. -/
  | closed
  /-- The iterator under a reference has so many items left; the batch that was fetched last is in
  an array under another. -/
  | opened (iterator : String) (array : Option (String × List RemoteObject)) (left : List RemoteObject)

/-- The command succeeds and hands over a reference, with which the page goes on as it should. -/
def Peer.Hands (P : Peer) (method : String) (params : Json) (s : P.State)
    (Then : String → P.State → Prop) : Prop :=
  ∃ reply value id, (P.command method params s).1.outcome = .ok reply ∧
    Evaluation.reader.ofJson? reply = some ⟨value, none⟩ ∧ value.objectId = some id ∧
    Then id (P.command method params s).2.2

/-- The parameters of a call of a page function for a reference to its result. -/
structure Calls (params : Json) (script : String) (arguments : List Json) : Prop where
  script : params.member "functionDeclaration" = .string script
  arguments : params.member "arguments" = .array arguments
  byReference : params.member "returnByValue" = .bool false

/-- A page whose iterator holds the items. -/
structure Pager (P : Peer) (items : List RemoteObject) where
  /-- The iteration has come so far. -/
  At : Cue → P.State → Prop
  quiet : P.Quiet True
  evaluates : ∀ {c s} params, At c s → P.Hands "Runtime.evaluate" params s fun _ => At c
  opens : ∀ {s params arguments}, At .closed s → Calls params iteratorScript arguments →
    P.Hands "Runtime.callFunctionOn" params s fun iterator => At (.opened iterator none items)
  /-- A batch is what comes next, as much as it holds or as is left. -/
  gives : ∀ {iterator array left s params}, At (.opened iterator array left) s →
    Calls params batchScript
      [.object [("objectId", .string iterator)], valueArgument (.nat batchSize)] →
    P.Hands "Runtime.callFunctionOn" params s fun array =>
      At (.opened iterator (some (array, left.take batchSize)) (left.drop batchSize))
  /-- An array lists its items, each under its number. -/
  lists : ∀ {iterator array batch left s params}, At (.opened iterator (some (array, batch)) left) s →
    params.member "objectId" = .string array →
    ∃ reply properties, (P.command "Runtime.getProperties" params s).1.outcome = .ok reply ∧
      Property.listReader.ofJson? reply = some properties ∧
      (Handle.indexed properties).Perm (batch.zipIdx.map Prod.swap) ∧
      At (.opened iterator (some (array, batch)) left) (P.command "Runtime.getProperties" params s).2.2
  releases : ∀ {c s} params, At c s → ∃ reply,
    (P.command "Runtime.releaseObject" params s).1.outcome = .ok reply ∧
      At c (P.command "Runtime.releaseObject" params s).2.2

variable {P : Peer} {patience : Nat} {α β : Type} {x : Recorded P}

/-- The page was asked for a batch. -/
def Instant.asksBatch : Instant P → Bool
  | ⟨_, .command method params⟩ =>
    method == "Runtime.callFunctionOn" && (params.member "functionDeclaration").string? == some batchScript
  | _ => false

/-- How many batches the page was asked for. -/
def batches (record : List (Instant P)) : Nat := record.countP Instant.asksBatch

/-- The action succeeds, with such a value and in such a world. -/
abbrev Succeeds (P : Peer) (patience : Nat) (x : Recorded P) (a : side.Action α)
    (R : α → Recorded P → Prop) : Prop :=
  Prompt (recording P patience) (fun _ => True) (fun r y => ∃ v, r = .ok v ∧ R v y) a.outcome x

/-- The question neither asks the page nor closes the connection. -/
def Query.isLocal : Query → Bool
  | command _ _ | close => false
  | _ => true

namespace Pager

variable {items : List RemoteObject} {g : Pager P items} {c c' : Cue} {b : Nat}

/-- The iteration has come so far, with so many batches. -/
structure Shows (g : Pager P items) (c : Cue) (b : Nat) (x : Recorded P) : Prop where
  cue : g.At c x.1.peer
  asked : batches x.2 = b

theorem Shows.tell (hx : g.Shows c b x) {q : Query} (hq : q.isLocal = true) :
    g.Shows c b (x.tell q) := by
  have hpeer : (x.tell q).1.peer = x.1.peer := by
    cases q with
    | command | close => exact absurd hq (by simp [Query.isLocal])
    | listen =>
      simp only [Recorded.tell, World.answer]
      split <;> rfl
    | _ => rfl
  have hnone : Instant.asksBatch ⟨x.1, q⟩ = false := by
    cases q with
    | command => exact absurd hq (by simp [Query.isLocal])
    | _ => rfl
  refine ⟨hpeer ▸ hx.cue, ?_⟩
  rw [batches, Recorded.tell, List.countP_append, List.countP_singleton, hnone]
  exact hx.asked

theorem Shows.command (hx : g.Shows c b x) {method : String} {params : Json}
    (hmethod : method ≠ "Runtime.callFunctionOn")
    (hcue : g.At c' (P.command method params x.1.peer).2.2) :
    g.Shows c' b (x.tell (.command method params)) := by
  have hnone : Instant.asksBatch (P := P) ⟨x.1, .command method params⟩ = false := by
    simp [Instant.asksBatch, hmethod]
  refine ⟨hcue, ?_⟩
  rw [batches, Recorded.tell, List.countP_append, List.countP_singleton, hnone]
  exact hx.asked

theorem Shows.call (hx : g.Shows c b x) {params : Json} {script : String} {arguments : List Json}
    (hparams : Calls params script arguments)
    (hcue : g.At c' (P.command "Runtime.callFunctionOn" params x.1.peer).2.2) :
    g.Shows c' (b + if script = batchScript then 1 else 0)
      (x.tell (.command "Runtime.callFunctionOn" params)) := by
  have hasks : Instant.asksBatch (P := P) ⟨x.1, .command "Runtime.callFunctionOn" params⟩ =
      decide (script = batchScript) := by
    rw [Bool.eq_iff_iff]
    simp [Instant.asksBatch, hparams.script, Json.string?]
  refine ⟨hcue, ?_⟩
  rw [batches, Recorded.tell, List.countP_append, List.countP_singleton, hasks, ← hx.asked]
  simp [batches]

/-! ### Commands -/

theorem succeeds_read {reader : Json.Reader α} {reply : Json} {v : α}
    (h : reader.ofJson? reply = some v) :
    Succeeds P patience x (read reader reply) fun u y => u = v ∧ y = x := by
  unfold read
  rw [h]
  exact ⟨v, rfl, rfl, rfl⟩

theorem succeeds_ask {q : Query} {f : q.Answer → side.Action β} {R : β → Recorded P → Prop}
    (hq : q.isQuiet = true)
    (hf : ∀ a, (x.1.answer q).1 = a → Succeeds P patience (x.tell q) (f a) R) :
    Succeeds P patience x (ask q >>= f) R :=
  (prompt_ask hq).mpr (hf _ rfl)

section

variable (hg : P.Quiet True)
include hg

theorem succeeds_command {method : String} {params reply : Json}
    (h : x.reply method params = .ok reply) :
    Succeeds P patience x (command method params) fun r y =>
      r = reply ∧ y = x.tell (.command method params) :=
  prompt_command hg ⟨reply, h, rfl, rfl⟩

theorem succeeds_send {method : String} {params reply : Json}
    (h : x.reply method params = .ok reply) :
    Succeeds P patience x (send method params) fun r y =>
      r = reply ∧ y = x.tell (.command method params) := by
  refine prompt_send hg (fun r hr => ?_) fun e he => ?_
  · obtain rfl : reply = r := Except.ok.inj (h.symm.trans hr)
    exact ⟨reply, rfl, rfl, rfl⟩
  · exact absurd (h.symm.trans he) (by simp)

end

theorem succeeds_globalId (hx : g.Shows c b x) :
    Succeeds P patience x globalId fun _ y => g.Shows c b y := by
  refine succeeds_ask rfl fun (known : Option String) _ => ?_
  have hasked : g.Shows c b (x.tell .global) := hx.tell rfl
  cases known with
  | some id => exact ⟨id, rfl, hasked⟩
  | none =>
    obtain ⟨reply, value, id, hreply, hread, hid, hcue⟩ :=
      g.evaluates (params [("expression", .string "globalThis")]) hasked.cue
    refine (succeeds_command g.quiet hreply).andThen ?_
    rintro _ _ ⟨rfl, rfl⟩
    refine (succeeds_read hread).andThen ?_
    rintro _ _ ⟨rfl, rfl⟩
    rw [hid]
    exact succeeds_ask rfl fun _ _ => ⟨id, rfl, (hasked.command (by decide) hcue).tell rfl⟩

/-- A call for a reference, to a page that hands one over. -/
theorem succeeds_callFunction {script : String} {arguments : List Json} (then' : String → Cue)
    (hx : g.Shows c b x)
    (hcall : ∀ {s params}, g.At c s → Calls params script arguments →
      P.Hands "Runtime.callFunctionOn" params s fun id => g.At (then' id)) :
    Succeeds P patience x (callFunction script arguments false) fun value y =>
      ∃ id, value.objectId = some id ∧
        g.Shows (then' id) (b + if script = batchScript then 1 else 0) y := by
  refine (succeeds_globalId hx).andThen fun id x hx => ?_
  have hparams : Calls (params [
      ("functionDeclaration", .string script), ("objectId", .string id),
      ("arguments", .array arguments), ("returnByValue", .bool false),
      ("awaitPromise", .bool true), ("userGesture", .bool true)]) script arguments := ⟨rfl, rfl, rfl⟩
  obtain ⟨reply, value, ref, hreply, hread, href, hcue⟩ := hcall hx.cue hparams
  refine (succeeds_send g.quiet hreply).andThen ?_
  rintro _ _ ⟨rfl, rfl⟩
  refine (succeeds_read hread).andThen ?_
  rintro _ _ ⟨rfl, rfl⟩
  exact ⟨value, rfl, ref, href, hx.call hparams hcue⟩

/-- What stands for an argument in a call. -/
def argumentJson : Argument Handle → Json
  | .value v => valueArgument v
  | .undefined => .object []
  | .handle h => handleJson h

theorem succeeds_handleArgument {h : Handle} (hlive : x.1.isDisposed h = false) :
    Succeeds P patience x (handleArgument h) fun arg y =>
      arg = handleJson h ∧ y = x.tell (.isDisposed h) := by
  rw [handleArgument_eq]
  refine succeeds_ask rfl fun (disposed : Bool) hdisposed => ?_
  obtain rfl : disposed = false := hdisposed.symm.trans hlive
  exact ⟨_, rfl, rfl, rfl⟩

theorem succeeds_callArgument {arg : Argument Handle} (hx : g.Shows c b x)
    (hlive : ∀ h, arg = .handle h → x.1.isDisposed h = false) :
    Succeeds P patience x (callArgument arg) fun json y =>
      json = argumentJson arg ∧ y.1 = x.1 ∧ g.Shows c b y := by
  cases arg with
  | value v => exact ⟨_, rfl, rfl, rfl, hx⟩
  | undefined => exact ⟨_, rfl, rfl, rfl, hx⟩
  | handle h =>
    refine (succeeds_handleArgument (hlive h rfl)).mono ?_
    rintro r y ⟨json, rfl, rfl, rfl⟩
    exact ⟨_, rfl, rfl, rfl, hx.tell rfl⟩

theorem succeeds_callArguments {args : List (Argument Handle)} (hx : g.Shows c b x)
    (hlive : ∀ h, .handle h ∈ args → x.1.isDisposed h = false) :
    Succeeds P patience x (args.mapM callArgument) fun jsons y =>
      jsons = args.map argumentJson ∧ y.1 = x.1 ∧ g.Shows c b y := by
  induction args generalizing x with
  | nil => exact ⟨_, rfl, rfl, rfl, hx⟩
  | cons arg rest ih =>
    rw [List.mapM_cons]
    refine (succeeds_callArgument hx fun h harg => hlive h (harg ▸ List.mem_cons_self)).andThen ?_
    rintro _ y ⟨rfl, hsame, hy⟩
    refine (ih hy fun h hh => hsame ▸ hlive h (List.mem_cons_of_mem _ hh)).andThen ?_
    rintro _ z ⟨rfl, hsame', hz⟩
    exact ⟨_, rfl, rfl, hsame'.trans hsame, hz⟩

/-- The handle that is made stands for the value. -/
theorem succeeds_wrap {value : RemoteObject} (hx : g.Shows c b x) :
    Succeeds P patience x (wrap value) fun made y => made.remote = value ∧ g.Shows c b y :=
  succeeds_ask (q := .wrap value) (f := fun made => Pure.pure (α := Handle) made) rfl
    fun made hmade => ⟨made, rfl, (congrArg Handle.remote hmade).symm, hx.tell rfl⟩

/-- A call on a handle for a handle of the result, to a page that hands one over. -/
theorem succeeds_evaluateHandle {h : Handle} {script : String} {args : List (Argument Handle)}
    (then' : String → Cue) (hx : g.Shows c b x) (hlive : x.1.isDisposed h = false)
    (hargs : ∀ h, .handle h ∈ args → x.1.isDisposed h = false)
    (hcall : ∀ {s params}, g.At c s → Calls params script (handleJson h :: args.map argumentJson) →
      P.Hands "Runtime.callFunctionOn" params s fun id => g.At (then' id)) :
    Succeeds P patience x (h.evaluateHandle script args) fun made y =>
      ∃ id, made.remote.objectId = some id ∧
        g.Shows (then' id) (b + if script = batchScript then 1 else 0) y := by
  have hinvoke : Succeeds P patience x (h.invoke script args false) fun value y =>
      ∃ id, value.objectId = some id ∧
        g.Shows (then' id) (b + if script = batchScript then 1 else 0) y := by
    refine (succeeds_handleArgument hlive).andThen ?_
    rintro _ _ ⟨rfl, rfl⟩
    refine (succeeds_callArguments (hx.tell rfl) hargs).andThen ?_
    rintro _ y ⟨rfl, -, hy⟩
    exact succeeds_callFunction then' hy hcall
  refine hinvoke.andThen ?_
  rintro value y ⟨id, hid, hy⟩
  refine (succeeds_wrap hy).mono ?_
  rintro r z ⟨made, rfl, rfl, hz⟩
  exact ⟨made, rfl, id, hid, hz⟩

/-- The utility bundle is at hand, and its handle is live. -/
theorem succeeds_utility (hx : g.Shows c b x) :
    Succeeds P patience x utility fun h y => y.1.isDisposed h = false ∧ g.Shows c b y := by
  refine succeeds_ask rfl fun (known : Option Handle) hknown => ?_
  have hasked : g.Shows c b (x.tell .utility) := hx.tell rfl
  cases known with
  | some h =>
    have hlive : x.1.isDisposed h = false := by simpa using (Option.filter_eq_some_iff.mp hknown).2
    exact ⟨h, rfl, hlive, hasked⟩
  | none =>
    refine succeeds_ask rfl fun (source : String) _ => ?_
    have htold : g.Shows c b ((x.tell .utility).tell .utilitySource) := hasked.tell rfl
    obtain ⟨reply, value, id, hreply, hread, hid, hcue⟩ :=
      g.evaluates (params [("expression", .string source), ("returnByValue", .bool false)]) htold.cue
    refine (succeeds_command g.quiet hreply).andThen ?_
    rintro _ _ ⟨rfl, rfl⟩
    refine (succeeds_read hread).andThen ?_
    rintro _ _ ⟨rfl, rfl⟩
    refine succeeds_ask rfl fun (h : Handle) hmade => ?_
    refine succeeds_ask rfl fun _ _ => ⟨h, rfl, ?_, ((htold.command (by decide) hcue).tell rfl).tell rfl⟩
    subst hmade
    simp [Recorded.tell, World.answer, World.wrap, World.isDisposed]

/-! ### Batches -/

/-- What the program owes goes along with what it is given. -/
theorem owing {a : side.Action α} {R : α → Recorded P → Prop} {m rest : Multiset Charge}
    {after : Except Error α → Multiset Charge} (ha : Succeeds P patience x a R)
    (hconserves : Conserves P patience True m a after) (howes : Owes x (m + rest)) :
    Succeeds P patience x a fun v y => R v y ∧ Owes y (after (.ok v) + rest) := by
  refine (ha.and (hconserves x rest howes)).mono ?_
  rintro r y ⟨⟨v, rfl, hR⟩, hy⟩
  exact ⟨v, rfl, hR, hy⟩

/-- The page opens an iterator over its items. -/
theorem succeeds_openIterator {root : Handle} {query : Wayfind.Query.Prepared}
    (hx : g.Shows .closed b x) {rest : Multiset Charge} (howes : Owes x rest)
    (hroot : root.id ∈ marks rest) :
    Succeeds P patience x (Matches.openIterator (realm patience) root query) fun made y =>
      (∃ iterator, made.remote.objectId = some iterator ∧ g.Shows (.opened iterator none items) b y) ∧
        Owes y (made.charge + rest) := by
  rw [← zero_add rest] at howes
  refine (owing (succeeds_utility hx) (idle_utility g.quiet) howes).andThen ?_
  rintro u y ⟨⟨hu, hy⟩, howes⟩
  refine owing ?_ (conserves_evaluateHandle g.quiet root _ _) howes
  refine (succeeds_evaluateHandle (.opened · none items) hy ?_ ?_ g.opens).mono ?_
  · exact howes.isDisposed (by simpa using hroot)
  · intro h hh
    have hmem : Argument.handle h ∈ [Argument.value (.string query.scripts.all),
      Argument.value (.string query.selector), Argument.handle (H := Handle) u] := hh
    obtain rfl : h = u := by simpa using hmem
    exact hu
  · rintro r z ⟨made, rfl, iterator, hid, hz⟩
    exact ⟨made, rfl, iterator, hid, hz⟩

/-- Items under their numbers, in whatever order, are put into theirs. -/
theorem sort_numbered {γ : Type} {batch : List γ} {numbered : List (Nat × γ)}
    (h : numbered.Perm (batch.zipIdx.map Prod.swap)) :
    (numbered.mergeSort fun a b => a.1 ≤ b.1) = batch.zipIdx.map Prod.swap := by
  have hperm := (List.mergeSort_perm numbered fun a b => a.1 ≤ b.1).trans h
  refine @List.Perm.eq_of_pairwise _ (fun a b => a.1 ≤ b.1) _ _ ?_ ?_ ?_ hperm
  · rintro ⟨i, u⟩ ⟨j, v⟩ hu hv hle hge
    obtain rfl : i = j := Nat.le_antisymm hle hge
    have hu' := hperm.mem_iff.mp hu
    simp only [List.mem_map, Prod.exists, Prod.swap_prod_mk, Prod.mk.injEq,
      List.mem_zipIdx_iff_getElem?] at hu' hv
    obtain ⟨u, i, hi, rfl, rfl⟩ := hu'
    obtain ⟨v, j, hj, rfl, rfl⟩ := hv
    rw [hi] at hj
    exact congrArg (Prod.mk j) (Option.some.inj hj)
  · refine (List.pairwise_mergeSort ?_ ?_ numbered).imp fun hle => of_decide_eq_true hle
    · exact fun a b c hab hbc =>
        decide_eq_true ((of_decide_eq_true hab).trans (of_decide_eq_true hbc))
    · exact fun a b => by simpa using Nat.le_total a.1 b.1
  · rw [List.pairwise_map]
    have hnumbers : (batch.zipIdx.map Prod.snd).Pairwise (· ≤ ·) := by
      rw [List.zipIdx_map_snd]
      exact List.pairwise_le_range'
    exact List.pairwise_map.mp hnumbers

theorem succeeds_wrapAll {values : List (Nat × RemoteObject)} (hx : g.Shows c b x) :
    Succeeds P patience x (values.mapM fun (_, remote) => wrap remote) fun made y =>
      made.map Handle.remote = values.map Prod.snd ∧ g.Shows c b y := by
  induction values generalizing x with
  | nil => exact ⟨[], rfl, rfl, hx⟩
  | cons value rest ih =>
    rw [List.mapM_cons]
    refine (succeeds_wrap hx).andThen ?_
    rintro made y ⟨hmade, hy⟩
    refine (ih hy).andThen ?_
    rintro more z ⟨hmore, hz⟩
    exact ⟨made :: more, rfl, by rw [List.map_cons, List.map_cons, hmade, hmore], hz⟩

/-- The items of an array, in their order. -/
theorem succeeds_arrayItems {iterator array : String} {batch left : List RemoteObject} {h : Handle}
    (hx : g.Shows (.opened iterator (some (array, batch)) left) b x)
    (hid : h.remote.objectId = some array) :
    Succeeds P patience x h.arrayItems fun made y => made.map Handle.remote = batch ∧
      g.Shows (.opened iterator (some (array, batch)) left) b y := by
  have hreference : h.reference "Cannot list properties of a primitive" = pure (.string array) := by
    unfold Handle.reference
    rw [hid]
  have harray : (params [("objectId", .string array), ("ownProperties", .bool true)]).member "objectId" =
      .string array := rfl
  obtain ⟨reply, properties, hreply, hread, hperm, hcue⟩ := g.lists hx.cue harray
  unfold Handle.arrayItems
  rw [hreference, pure_bind]
  refine (succeeds_send g.quiet hreply).andThen ?_
  rintro _ _ ⟨rfl, rfl⟩
  refine (succeeds_read hread).andThen ?_
  rintro _ _ ⟨rfl, rfl⟩
  refine (succeeds_wrapAll (hx.command (by decide) hcue)).mono ?_
  rintro r y ⟨made, rfl, hmade, hy⟩
  refine ⟨made, rfl, ?_, hy⟩
  rw [hmade, sort_numbered hperm, List.map_map]
  exact List.zipIdx_map_fst 0 batch

theorem succeeds_dispose {h : Handle} (hx : g.Shows c b x) :
    Succeeds P patience x h.dispose fun _ y => g.Shows c b y := by
  refine succeeds_ask rfl fun (first : Bool) _ => ?_
  have htold : g.Shows c b (x.tell (.dispose h)) := hx.tell rfl
  cases first with
  | false => exact ⟨(), rfl, htold⟩
  | true =>
    rcases h.remote.objectId with _ | id
    · exact ⟨(), rfl, htold⟩
    · obtain ⟨reply, hreply, hcue⟩ := g.releases (params [("objectId", .string id)]) htold.cue
      refine (succeeds_send g.quiet hreply).andThen ?_
      rintro _ _ ⟨rfl, rfl⟩
      exact ⟨(), rfl, htold.command (by decide) hcue⟩

theorem succeeds_releaseIn {h : Handle} (hx : g.Shows c b x) :
    Succeeds P patience x ((realm patience).releaseIn h) fun _ y => g.Shows c b y := by
  refine prompt_bind.mpr ?_
  refine prompt_bind.mpr ((succeeds_dispose hx).mono ?_)
  rintro r y ⟨_, rfl, hy⟩
  exact ⟨(), rfl, hy⟩

theorem succeeds_keepElements {made : List Handle} (hx : g.Shows c b x) :
    Succeeds P patience x ((realm patience).keepElements made) fun kept y =>
      kept = made.filter (·.remote.isNode) ∧ g.Shows c b y := by
  induction made generalizing x with
  | nil => exact ⟨[], rfl, rfl, hx⟩
  | cons h rest ih =>
    have hkept : Succeeds P patience x ((realm patience).keepElement h) fun kept y =>
        kept.toList = [h].filter (·.remote.isNode) ∧ g.Shows c b y := by
      unfold Realm.keepElement
      by_cases hnode : (realm patience).isElement h = true
      · rw [if_pos hnode]
        exact ⟨some h, rfl, (List.filter_cons_of_pos (p := fun h : Handle => h.remote.isNode) (l := []) hnode).symm, hx⟩
      · rw [if_neg hnode]
        refine (succeeds_releaseIn hx).andThen ?_
        exact fun _ y hy =>
          ⟨none, rfl, (List.filter_cons_of_neg (p := fun h : Handle => h.remote.isNode) (l := []) hnode).symm, hy⟩
    refine hkept.andThen ?_
    rintro kept y ⟨hkept, hy⟩
    refine (ih hy).andThen ?_
    rintro more z ⟨rfl, hz⟩
    refine ⟨_, rfl, ?_, hz⟩
    exact (congrArg (fun l : List Handle => l ++ rest.filter (·.remote.isNode)) hkept).trans
      (List.filter_append [h] rest).symm

/-- A batch gives the elements among the next items. -/
theorem succeeds_fetchBatch {iterator : String} {array : Option (String × List RemoteObject)}
    {left : List RemoteObject} {h : Handle} {rest : Multiset Charge}
    (hx : g.Shows (.opened iterator array left) b x) (howes : Owes x rest)
    (hid : h.remote.objectId = some iterator) (hlive : h.id ∈ marks rest) :
    Succeeds P patience x (Matches.fetchBatch (realm patience) h) fun fetched y =>
      (∃ array, fetched.1.map Handle.remote = (left.take batchSize).filter RemoteObject.isNode ∧
        fetched.2 = decide (left.length < batchSize) ∧
        g.Shows (.opened iterator array (left.drop batchSize)) (b + 1) y) ∧
        Owes y (charges fetched.1 + rest) := by
  rw [← zero_add rest] at howes
  refine owing ?_ (conserves_fetchBatch g.quiet h) howes
  have hjson : handleJson h = .object [("objectId", .string iterator)] := by
    unfold handleJson
    rw [hid]
  have hcall : Succeeds P patience x (h.evaluateHandle batchScript [.value (.nat batchSize)]) fun made y =>
      ∃ id, made.remote.objectId = some id ∧
        g.Shows (.opened iterator (some (id, left.take batchSize)) (left.drop batchSize)) (b + 1) y := by
    refine (succeeds_evaluateHandle
      (fun id => .opened iterator (some (id, left.take batchSize)) (left.drop batchSize)) hx
      (howes.isDisposed (by simpa using hlive)) (fun h hh => ?_) fun hcue hcalls => g.gives hcue (hjson ▸ hcalls)).mono ?_
    · simp at hh
    · rintro r y ⟨made, rfl, id, hid, hy⟩
      rw [if_pos rfl] at hy
      exact ⟨made, rfl, id, hid, hy⟩
  refine hcall.andThen ?_
  rintro a y ⟨id, hid, hy⟩
  refine prompt_attempt.mpr ((succeeds_arrayItems hy hid).mono ?_)
  rintro r y ⟨made, rfl, hmade, hy⟩
  refine (succeeds_releaseIn hy).andThen fun _ y hy => ?_
  refine (succeeds_keepElements hy).andThen ?_
  rintro _ y ⟨rfl, hy⟩
  refine ⟨(made.filter (·.remote.isNode), decide (made.length < batchSize)), rfl, _, ?_, ?_, hy⟩
  · rw [← hmade, List.filter_map]
    rfl
  · have hlength : made.length = min batchSize left.length := by
      rw [← List.length_map (f := Handle.remote), hmade, List.length_take]
    exact decide_eq_decide.mpr (by rw [hlength]; omega)

end Pager

end Wayfind.Remote
