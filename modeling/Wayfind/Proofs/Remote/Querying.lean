/-
What a failed query leaves.

A query for the first match disposes whatever it has made when it fails: the document, the iterator, the
batches and what they held.  A query for every match does as much, but of the matches that it had taken
before it failed nobody disposes any (`disposed_of_failed`); where the document nodes are adopted one by
one, the first stays when the second cannot be had (`spilled_by_twins`).
-/
import Wayfind.Proofs.Remote.Clearing
import Wayfind.Proofs.Remote.Every

namespace Wayfind.Remote

open Activity (Amid Asks Clears Ends Neat clears_ask_ignored clears_assoc clears_done clears_lift clears_never
  clears_ofExcept clears_of_asks clears_pure clears_throw neat_pure neat_throw)
open PageSide (Action)
open Wayfind.Query (Handler Matches Prepared)

variable {P : Peer} {patience : Nat} {trusted : Bool} {α β : Type} {owed : Set Handle}

/-! ### Elements among what is found -/

/-- To keep the handle of an element, or to release any other, never fails. -/
theorem leaves_keepElementThen (h : Handle) {f : Option Handle → side.Action β}
    {left : Except Error β → Set Handle} (hf : ∀ o, LeavesOver trusted (within o ∪ owed) (f o) left) :
    LeavesOver trusted ({h} ∪ owed) ((realm patience).keepElement h >>= f) left := by
  unfold Realm.keepElement
  split
  · have hkept := hf (some h)
    rwa [show within (some h) = {h} from among_singleton h] at hkept
  · refine clears_assoc (leaves_releaseThen h ?_)
    have hnone := hf none
    rwa [show within none = ∅ from among_nil, Set.empty_union] at hnone

theorem leaves_keepElement (h : Handle) :
    LeavesOver trusted {h} ((realm patience).keepElement h) (onSuccess within) := by
  have hthen : LeavesOver trusted ({h} ∪ ∅) ((realm patience).keepElement h >>= pure) (onSuccess within) :=
    leaves_keepElementThen h fun o => clears_pure (Set.union_empty _).subset
  rwa [Set.union_empty, bind_pure] at hthen

theorem leaves_keepElementsThen (hs : List Handle) {f : List Handle → side.Action β}
    {left : Except Error β → Set Handle} (hf : ∀ kept, LeavesOver trusted (among kept ∪ owed) (f kept) left) :
    LeavesOver trusted (among hs ∪ owed) ((realm patience).keepElements hs >>= f) left := by
  induction hs generalizing owed f with
  | nil => exact hf []
  | cons h rest ih =>
    rw [among_cons, Set.union_assoc]
    refine clears_assoc (leaves_keepElementThen h fun o => ?_)
    rw [Set.union_left_comm]
    refine clears_assoc (ih fun kept => ?_)
    have hall := hf (o.toList ++ kept)
    rwa [among_append, Set.union_assoc, Set.union_left_comm] at hall

/-! ### Batches -/

theorem leaves_openIterator (root : Handle) (query : Prepared) :
    LeavesOver true ∅ (Matches.openIterator (realm patience) root query) (onSuccess fun h => {h}) :=
  tidy_utility.bind fun _ => leaves_evaluateHandle root _ _

theorem leaves_fetchBatch (iterator : Handle) :
    LeavesOver true ∅ (Matches.fetchBatch (realm patience) iterator) (onSuccess fun batch => among batch.1) := by
  refine Clears.andThen (leaves_evaluateHandle iterator _ _) (fun array => ?_) fun _ => Set.Subset.rfl
  refine Clears.attempt ((leaves_arrayItems array).keep {array}) fun items => ?_
  rw [Set.union_comm]
  refine leaves_releaseThen array ?_
  cases items with
  | error e => exact clears_throw Set.Subset.rfl
  | ok items =>
    have hkept : LeavesOver true (among items ∪ ∅)
        ((realm patience).keepElements items >>= fun kept =>
          pure (kept, decide (items.length < Wayfind.Query.batchSize)))
        (onSuccess fun batch => among batch.1) :=
      leaves_keepElementsThen items fun kept => clears_pure (Set.union_empty _).subset
    rwa [Set.union_empty] at hkept

/-! ### Matches, one after another -/

/-- What is left of a step: the match, and what the query holds; an error or the end leave nothing. -/
def stepLeft : Matches.Step side → Set Handle
  | (some (.ok h), m) => {h} ∪ among (held m)
  | _ => ∅

theorem among_taken (iterator h : Handle) (rest : List Handle) (ended : Bool) :
    among (iterator :: h :: rest) ⊆ stepLeft (some (.ok h), .iterating iterator rest ended) := by
  rintro x hx
  show x ∈ {h} ∪ among (iterator :: rest)
  simp only [among, Set.mem_ofPred_eq, List.mem_cons, Set.mem_union, Set.mem_singleton_iff] at hx ⊢
  tauto

/-- A match is pulled out of what was fetched, or of the next batch; after the last one and after an error
nothing is left. -/
theorem clears_pull (iterator : Handle) (fuel : Nat) (fetched : List Handle) (ended : Bool) :
    Clears (handleDues true) (among (iterator :: fetched))
      (Matches.pull (realm patience) iterator fuel fetched ended) stepLeft := by
  have hreleased (o : Option (Except Error Handle)) (h : stepLeft (o, .nothing) = ∅) :
      Clears (handleDues true) (among [iterator])
        (Activity.bind ((realm patience).release iterator) fun _ => .done (o, .nothing)) stepLeft := by
    rw [among_singleton]
    exact Clears.bind (clears_release iterator) fun _ => clears_done.mpr h.symm.subset
  induction fuel generalizing fetched ended with
  | zero =>
    cases fetched with
    | cons h rest => exact clears_done.mpr (among_taken iterator h rest ended)
    | nil =>
      cases ended with
      | true => exact hreleased none rfl
      | false => exact clears_never
  | succ fuel ih =>
    cases fetched with
    | cons h rest => exact clears_done.mpr (among_taken iterator h rest ended)
    | nil =>
      cases ended with
      | true => exact hreleased none rfl
      | false =>
        have hkept : LeavesOver true {iterator} (Matches.fetchBatch (realm patience) iterator)
            fun r => onSuccess (fun batch => among batch.1) r ∪ {iterator} :=
          Clears.keep (leaves_fetchBatch iterator) {iterator}
        have hfetch := Clears.protect hkept [PageSide.releaseDuty (B := side) iterator]
        rw [among_singleton]
        refine Clears.bind hfetch fun batch => ?_
        cases batch with
        | ok batch => exact (ih batch.1 batch.2).of_subset (among_cons' iterator batch.1).superset
        | error e =>
          refine (hreleased (some (.error e)) rfl).of_subset ?_
          rw [among_singleton]
          exact (Set.empty_union {iterator}).subset

theorem leaves_adopt (id : Int) : LeavesOver trusted ∅ (adopt id) (onSuccess fun h => {h}) :=
  (tidy_send _ _).bind fun _ => (neat_read _ _).bind leaves_wrap

theorem clears_adoptNext (ids : List Int) :
    Clears (handleDues true) ∅ (Matches.adoptNext (realm patience) ids) stepLeft := by
  cases ids with
  | nil => exact clears_done.mpr Set.Subset.rfl
  | cons id rest =>
    refine Clears.bind (leaves_adopt id) fun r => ?_
    cases r with
    | ok h =>
      refine clears_done.mpr ?_
      show ({h} : Set Handle) ⊆ {h} ∪ among []
      exact Set.subset_union_left
    | error e => exact clears_done.mpr Set.Subset.rfl

theorem tidy_accessibleNodes (h : Handle) (name role : Option String) : Tidy trusted (h.accessibleNodes name role) := by
  have hreference : Tidy trusted (h.reference "Accessibility query root has no object id") := by
    unfold Handle.reference
    split
    · exact neat_pure _
    · exact neat_throw _
  exact hreference.bind fun _ => (tidy_send _ _).bind fun _ => neat_read _ _

theorem tidy_accessibleIds (root : Handle) (selector : String) :
    Tidy trusted (Wayfind.Query.accessibleIds (realm patience) root selector) := by
  have hparse : Tidy trusted (Action.ofExcept (Selector.Accessible.ofText selector) : side.Action _) :=
    clears_ofExcept Set.Subset.rfl
  exact hparse.bind fun wanted => (tidy_accessibleNodes root wanted.name wanted.role).bind fun _ => neat_pure _

/-- Asks for the next match. -/
theorem clears_next (m : Matches side) :
    Clears (handleDues true) (among (held m)) (Matches.next (realm patience) patience m) stepLeft := by
  cases m with
  | unopened root query =>
    refine Clears.bind ((leaves_openIterator root query).of_subset among_nil.subset) fun r => ?_
    cases r with
    | ok iterator =>
      exact (clears_pull iterator patience [] false).of_subset (among_singleton iterator).superset
    | error e => exact clears_done.mpr Set.Subset.rfl
  | iterating iterator fetched ended => exact clears_pull iterator patience fetched ended
  | unasked root selector =>
    refine Clears.bind ((tidy_accessibleIds root selector).of_subset among_nil.subset) fun r => ?_
    cases r with
    | ok ids => exact clears_adoptNext ids
    | error e => exact clears_done.mpr Set.Subset.rfl
  | nodes ids => exact (clears_adoptNext ids).of_subset among_nil.subset
  | nothing => exact clears_done.mpr among_nil.subset

/-- Of every match that is taken nothing is left but those that were taken before the end or an error. -/
theorem clears_take (fuel : Nat) (m : Matches side) :
    Clears (handleDues true) (among (held m)) (Matches.take (realm patience) patience none fuel m)
      fun out => among out.1 := by
  induction fuel generalizing m with
  | zero => exact clears_never
  | succ fuel ih =>
    unfold Matches.take
    rw [if_neg (Option.some_ne_none 0).symm]
    refine Clears.bind (clears_next m) fun step => ?_
    obtain ⟨_ | e | h, m⟩ := step
    · exact clears_done.mpr (Set.empty_subset _)
    · exact clears_done.mpr (Set.empty_subset _)
    · refine Clears.bind ((ih m).frame {h} |>.of_subset (Set.union_comm _ _).subset) fun out => ?_
      exact clears_done.mpr (among_cons' h out.1).superset

/-! ### Queries of the page -/

theorem tidy_resolve (selector : String) : Tidy true (resolve selector) :=
  clears_ask_ignored ⟨rfl, fun _ => rfl⟩ fun _ => neat_pure _

theorem leaves_accessibleFirst (root : Handle) (selector : String) :
    LeavesOver trusted ∅ (Wayfind.Query.accessibleFirst (realm patience) root selector) (onSuccess within) := by
  refine (tidy_accessibleIds root selector).bind fun ids => ?_
  cases ids with
  | nil => exact clears_pure (Set.empty_subset _)
  | cons id rest =>
    exact Clears.andThen (leaves_adopt id) (fun h => clears_pure (among_singleton h).superset) fun _ => Set.Subset.rfl

theorem leaves_first (handler : Handler) (root : Handle) (selector : String) :
    LeavesOver true ∅ (handler.first (realm patience) root selector) (onSuccess within) := by
  unfold Handler.first
  split
  · exact leaves_accessibleFirst root selector
  · refine tidy_utility.bind fun utility => ?_
    exact Clears.andThen (leaves_evaluateHandle root _ _) leaves_keepElement fun _ => Set.Subset.rfl

/-- The document is released whatever is done with it, so what that leaves is all. -/
theorem leaves_withDocument {use : Handle → side.Action α} {left : Except Error α → Set Handle}
    (huse : ∀ root, LeavesOver true ∅ (use root) left) : LeavesOver true ∅ (withDocument patience use) left := by
  refine Clears.andThen (leaves_callHandle _ _) (fun root => ?_) fun _ => Set.empty_subset _
  refine Clears.attempt ((huse root).keep {root}) fun outcome => ?_
  rw [Set.union_comm]
  exact leaves_releaseThen root (clears_ofExcept Set.Subset.rfl)

/-- The first match is all that is left of a query for it. -/
theorem leaves_querySelector (selector : String) :
    LeavesOver true ∅ ((pages patience).querySelector () selector) (onSuccess within) :=
  (tidy_resolve selector).bind fun found =>
    leaves_withDocument fun root => leaves_first found.1 root found.2

/-- The matches of the selector that were taken before the query for every one of them failed. -/
structure Failing (P : Peer) (patience : Nat) (selector : String) (own : List (Instant P)) where
  looked : World P
  root : Handle
  taken : List Handle
  error : Error
  left : Matches side
  finding : List (Instant P)
  taking : List (Instant P)
  ending : List (Instant P)
  whole : own = ⟨looked, .registry⟩ :: (finding ++ (taking ++ ending))
  found : Concludes P patience document finding (.ok root)
  took : Ends (backend P patience) (Matches.take (realm patience) patience none patience
    ((looked.registry.resolve selector).1.every root (looked.registry.resolve selector).2)) taking
    (taken, some error, left)

/-- The match was taken before the query for every match failed. -/
def TakenInVain (P : Peer) (patience : Nat) (selector : String) (own : List (Instant P)) (h : Handle) : Prop :=
  ∃ f : Failing P patience selector own, h ∈ f.taken

/-- Whoever gives a query up has others release what it holds. -/
theorem clears_abandon (m : Matches side) : Clears (handleDues true) owed m.abandon fun _ => owed := by
  refine clears_of_asks (Asks.fulfilThen (p := .done ()) trivial fun d hd => ?_)
  rw [duties_eq] at hd
  obtain ⟨job, -, rfl⟩ := List.mem_map.mp hd
  exact fun _ _ => Set.Subset.rfl

/-- A query for every match that has failed has taken so many. -/
theorem concludes_all {m : Matches side} {record : List (Instant P)} {e : Error}
    (h : Concludes P patience (m.all (realm patience) patience) record (.error e)) :
    ∃ (taking abandoning : List (Instant P)) (taken : List Handle) (left : Matches side),
      record = taking ++ abandoning ∧
      Ends (backend P patience) (Matches.take (realm patience) patience none patience m) taking
        (taken, some e, left) ∧
      Ends (backend P patience) left.abandon abandoning () := by
  obtain ⟨taking, second, ⟨taken, failure, left⟩, rfl, htaking, hsecond⟩ := Activity.ends_lift h
  obtain ⟨abandoning, third, u, rfl, habandoning, hthird⟩ := Activity.ends_lift hsecond
  cases failure with
  | none => exact absurd (Concludes.ofPure hthird).2 nofun
  | some failure =>
    obtain ⟨rfl, hsame⟩ := Concludes.ofThrow hthird
    obtain rfl := Except.error.inj hsame
    exact ⟨taking, abandoning, taken, left, congrArg _ (List.append_nil _), htaking, habandoning⟩

theorem concludes_resolve {selector : String} {record : List (Instant P)} {found : Handler × String}
    (h : Concludes P patience (resolve selector) record (.ok found)) :
    ∃ looked : World P, record = [⟨looked, .registry⟩] ∧ found = looked.registry.resolve selector := by
  obtain ⟨looked, rest, rfl, hrest⟩ := Concludes.ask h
  obtain ⟨rfl, hfound⟩ := Concludes.ofPure hrest
  exact ⟨looked, rfl, Except.ok.inj hfound⟩

/-- A query for every match holds nothing before somebody asks for the first. -/
theorem held_every (handler : Handler) (root : Handle) (selector : String) :
    held (handler.every root selector) = [] := by
  unfold Handler.every
  split <;> rfl

/-- Of a query for every match that has failed nothing is left but the matches that were taken. -/
theorem leftBy_querySelectorAll {selector : String} {own : List (Instant P)} {e : Error}
    (h : Concludes P patience ((pages patience).querySelectorAll () selector) own (.error e)) :
    leftBy true ∅ own ⊆ {h | TakenInVain P patience selector own h} := by
  have hnothing {left : Set Handle} (hleft : left ⊆ ∅) : left ⊆ {h | TakenInVain P patience selector own h} :=
    hleft.trans (Set.empty_subset _)
  rcases h.andThen with ⟨e, -, hfailed⟩ | ⟨looking, rest, found, rfl, hlooking, hrest⟩
  · exact hnothing (leftBy_subset true (tidy_resolve selector) Set.Subset.rfl hfailed)
  have hlooked := leftBy_subset true (tidy_resolve selector) Set.Subset.rfl hlooking
  obtain ⟨looked, rfl, hresolved⟩ := concludes_resolve hlooking
  rcases Concludes.andThen hrest with ⟨e, -, hfailed⟩ | ⟨finding, fourth, root, rfl, hfinding, hfourth⟩
  · rw [leftBy_append]
    exact hnothing (leftBy_subset true (leaves_callHandle _ _) hlooked hfailed)
  have hfound := leftBy_subset true (leaves_callHandle _ _) hlooked hfinding
  obtain ⟨searching, fifth, o, rfl, hsearching, hfifth⟩ := Concludes.attempt hfourth
  obtain ⟨releasing, sixth, rfl, hsixth, hreleased⟩ := concludes_releaseThen true hfifth
  obtain ⟨rfl, rfl⟩ := Concludes.ofExcept hsixth
  obtain ⟨taking, abandoning, taken, left, rfl, htaking, habandoning⟩ := concludes_all hsearching
  -- The document is left beside what was taken until it is released.
  have hevery : Clears (handleDues true) _ (Matches.take (realm patience) patience none patience
    (found.1.every root found.2)) _ := clears_take patience (found.1.every root found.2)
  have htake := hevery.frame {root}
  rw [held_every, among_nil, Set.empty_union] at htake
  have htaken := leftBy_subset true htake hfound htaking
  have habandoned := leftBy_subset true (clears_abandon left) htaken habandoning
  intro h hleft
  simp only [leftBy_append] at hleft
  have hin : h ∈ taken := hreleased _ (among taken) (habandoned.trans (Set.union_comm _ _).subset) hleft
  refine ⟨⟨looked, root, taken, e, left, finding, taking, abandoning ++ (releasing ++ []), ?_, hfinding,
    hresolved ▸ htaking⟩, hin⟩
  rw [List.append_assoc taking]
  rfl

/-- When a query has failed, amid whatever others do, the handles it made are disposed, and stay so, unless
the world has taken them for its own.  Only a query for every match leaves others: the matches that it had
taken. -/
theorem disposed_of_failed {selector : String} {start last : World P} {own : List (Instant P)} {e : Error} :
    (Amid (backend P patience) start ((pages patience).querySelector () selector).outcome own last
        (.done (.error e)) →
      ∀ h, Made own h → last.isDisposed h = true ∨ Retained own h) ∧
    (Amid (backend P patience) start ((pages patience).querySelectorAll () selector).outcome own last
        (.done (.error e)) →
      ∀ h, Made own h →
        last.isDisposed h = true ∨ Retained own h ∨ TakenInVain P patience selector own h) := by
  refine ⟨fun hquery h hmade => ?_, fun hquery h hmade => ?_⟩
  · obtain ⟨-, haged, hlast⟩ := hquery.ages ages_refl ages_trans ages_answer
    rcases isDisposed_of_made true haged hlast hmade with hdisposed | hretained | hleft
    · exact Or.inl hdisposed
    · exact Or.inr hretained.2
    · exact absurd (leftBy_subset true (leaves_querySelector selector) Set.Subset.rfl hquery.walk hleft)
        (Set.notMem_empty h)
  · obtain ⟨-, haged, hlast⟩ := hquery.ages ages_refl ages_trans ages_answer
    exact (isDisposed_of_made true haged hlast hmade).imp_right (Or.imp And.right fun hleft =>
      leftBy_querySelectorAll hquery.walk hleft)

/-! ### A page with two nodes, one of which cannot be had -/

/-- What a page replies whose accessibility tree has two nodes; only one of them is still there. -/
def twinsReply (there : Nat) (method : String) (doc : Json) : Except Error Json :=
  if method = "Runtime.evaluate" then .ok (.object [("result", .object [("objectId", .string "global")])])
  else if method = "Runtime.callFunctionOn" then
    .ok (.object [("result", .object [("objectId", .string "document")])])
  else if method = "Accessibility.queryAXTree" then
    .ok (.object [("nodes", .array [
      .object [("nodeId", .string "first"), ("backendDOMNodeId", .nat 1)],
      .object [("nodeId", .string "second"), ("backendDOMNodeId", .nat 2)]])])
  else if method = "DOM.resolveNode" then
    if (doc.member "backendNodeId").nat? = some there then
      .ok (.object [("object", .object [("objectId", .string "node")])])
    else .error (.protocol "No node with given id found")
  else .ok (.object [])

/-- A page with two nodes, one of which cannot be had. -/
def twins (there : Nat) : Peer where
  State := Unit
  command method doc _ := (⟨0, twinsReply there method doc⟩, [], ())
  listen _ := .ok ()
  close _ := (.ok (), ())

/-- A new world of such a page. -/
def twinsWorld (there : Nat) : World (twins there) := .init () "bundle"

/-- What a query asks of a new world of such a page, the world after it, and how it has ended. -/
def twinsQuery (there : Nat) (query : side.Action α) :
    List (Instant (twins there)) × World (twins there) × side.Task (Except Error α) :=
  atOnce 3 (twinsWorld there) query.outcome

/-- The error of a page that is asked for a node it does not have. -/
abbrev twinsError : Error := .protocol "No node with given id found"

/-- Whether the first node cannot be had, or the second. -/
theorem disposed_of_twins :
    (∀ h, Made (twinsQuery 2 ((pages 3).querySelector () "aria/Save")).1 h →
      (twinsQuery 2 ((pages 3).querySelector () "aria/Save")).2.1.isDisposed h = true ∨
        Retained (twinsQuery 2 ((pages 3).querySelector () "aria/Save")).1 h) ∧
    ∀ h, Made (twinsQuery 1 ((pages 3).querySelectorAll () "aria/Save")).1 h →
      (twinsQuery 1 ((pages 3).querySelectorAll () "aria/Save")).2.1.isDisposed h = true ∨
        Retained (twinsQuery 1 ((pages 3).querySelectorAll () "aria/Save")).1 h ∨
        TakenInVain (twins 1) 3 "aria/Save" (twinsQuery 1 ((pages 3).querySelectorAll () "aria/Save")).1 h := by
  have hfirst : (twinsQuery 2 ((pages 3).querySelector () "aria/Save")).2.2 = .done (.error twinsError) :=
    eq_of_failure? (by decide +kernel)
  have hevery : (twinsQuery 1 ((pages 3).querySelectorAll () "aria/Save")).2.2 = .done (.error twinsError) :=
    eq_of_failure? (by decide +kernel)
  exact ⟨disposed_of_failed.1 (hfirst ▸ amid_atOnce 3 _ _), disposed_of_failed.2 (hevery ▸ amid_atOnce 3 _ _)⟩

/-- The query has made the handle of such a number. -/
def makes (id : Nat) (m : Instant P) : Bool :=
  match m.query with
  | .wrap _ => m.world.ledger.size == id
  | _ => false

theorem made_of_makes {record : List (Instant P)} {id : Nat} (h : record.any (makes id) = true) :
    ∃ handle, Made record handle ∧ handle.id = id := by
  obtain ⟨⟨w, q⟩, hmem, hmakes⟩ := List.any_eq_true.mp h
  cases q with
  | wrap remote => exact ⟨_, ⟨w, remote, hmem, rfl⟩, beq_iff_eq.mp hmakes⟩
  | _ => cases hmakes

/-- The world takes a handle for its own. -/
def retains (m : Instant P) : Bool :=
  match m.query with
  | .rememberUtility _ => true
  | _ => false

theorem Retained.any {record : List (Instant P)} {h : Handle} (hretained : Retained record h) :
    record.any retains = true := by
  obtain ⟨w, hmem⟩ := hretained
  exact List.any_eq_true.mpr ⟨_, hmem, rfl⟩

/-- Nobody disposes the first node when the second cannot be had. -/
theorem spilled_by_twins :
    ∃ (own : List (Instant (twins 1))) (last : World (twins 1)) (e : Error) (h : Handle),
      Amid (backend (twins 1) 3) (twinsWorld 1) ((pages 3).querySelectorAll () "aria/Save").outcome own last
        (.done (.error e)) ∧
      Made own h ∧ last.isDisposed h = false ∧ ¬ Retained own h := by
  have hevery : (twinsQuery 1 ((pages 3).querySelectorAll () "aria/Save")).2.2 = .done (.error twinsError) :=
    eq_of_failure? (by decide +kernel)
  have hmakes : (twinsQuery 1 ((pages 3).querySelectorAll () "aria/Save")).1.any (makes 1) = true := by
    decide +kernel
  obtain ⟨h, hmade, hid⟩ := made_of_makes hmakes
  refine ⟨_, (twinsQuery 1 ((pages 3).querySelectorAll () "aria/Save")).2.1, twinsError, h,
    hevery ▸ amid_atOnce 3 _ _, hmade, ?_, ?_⟩
  · have hlive : (twinsQuery 1 ((pages 3).querySelectorAll () "aria/Save")).2.1.ledger[1]? = some false := by
      decide +kernel
    rw [World.isDisposed, hid, hlive]
    rfl
  · intro hretained
    have hnone : (twinsQuery 1 ((pages 3).querySelectorAll () "aria/Save")).1.any retains = false := by
      decide +kernel
    exact absurd hretained.any (by rw [hnone]; exact Bool.false_ne_true)

end Wayfind.Remote
