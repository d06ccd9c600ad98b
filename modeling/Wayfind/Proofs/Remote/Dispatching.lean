/-
What the answer to a call from the page leaves.

To answer a call the program makes handles of the array of its arguments and of each of them, and its
function may make another.  All of them are disposed when the call has been answered, whichever commands
fail, with one exception: the handle that the function has returned, when the promise could not be kept
with it (`disposed_of_dispatched`); then nobody disposes it (`spilled_by_deaf`).
-/
import Wayfind.Proofs.Remote.Querying

namespace Wayfind.Remote

open Activity (Clears Deed Ends Mingled Neat Numbered clears_ofExcept clears_pure clears_throw)
open PageSide (Action)

variable {P : Peer} {patience : Nat} {trusted : Bool}

/-! ### The steps of an answer -/

theorem leaves_takeArguments (name : String) (call : Json) :
    LeavesOver trusted ∅ (takeArguments patience name call) (onSuccess among) := by
  refine (tidy_callFunction _ _ _).bind fun remote => leaves_wrapThen remote fun array => ?_
  rw [Set.union_empty]
  refine Clears.attempt ((leaves_arrayItems array).keep {array}) fun items => ?_
  rw [Set.union_comm]
  exact leaves_releaseThen array (clears_ofExcept Set.Subset.rfl)

/-- The handle among arguments or results. -/
def carried : Argument Handle → Set Handle
  | .handle h => {h}
  | _ => ∅

theorem leaves_answerAccessible (args : List Handle) :
    LeavesOver trusted ∅ (Wayfind.Query.answerAccessible (realm patience) args) (onSuccess carried) := by
  rcases args with _ | ⟨root, _ | ⟨selector, rest⟩⟩
  · exact clears_throw Set.Subset.rfl
  · exact clears_throw Set.Subset.rfl
  · refine (tidy_jsonValue selector).bind fun doc => ?_
    cases doc with
    | string text =>
      refine Clears.andThen (leaves_accessibleFirst root text) (fun o => ?_) fun _ => Set.Subset.rfl
      cases o with
      | some h => exact clears_pure (among_singleton h).subset
      | none => exact clears_pure among_nil.subset
    | _ => exact clears_throw Set.Subset.rfl

/-- A function of the program that makes its result of the arguments alone makes no handle. -/
theorem leaves_answerHost (host : Host Handle) (args : List Handle) :
    LeavesOver trusted ∅ (Wayfind.Query.answerHost (realm patience) host args) (onSuccess carried) := by
  cases host with
  | aria => exact leaves_answerAccessible args
  | native run => exact clears_ofExcept (Set.empty_subset _)

/-- What is left once the promise was to be ended: the handle with which it could not be kept. -/
def settledLeft (outcome : Except Error (Argument Handle)) : Except Error Unit → Set Handle
  | .ok _ => ∅
  | .error _ => onSuccess carried outcome

theorem leaves_settle (name : String) (call : Json) (outcome : Except Error (Argument Handle)) :
    LeavesOver trusted (onSuccess carried outcome) (settle patience name call outcome) (settledLeft outcome) := by
  cases outcome with
  | error e => exact (tidy_callFunction _ _ _).andThen (fun _ => clears_pure Set.Subset.rfl) fun _ => Set.Subset.rfl
  | ok result =>
    refine Neat.andThen (neat_callArgument result) (fun value => ?_) fun _ => Set.Subset.rfl
    refine Neat.andThen (tidy_callFunction _ _ _) (fun _ => ?_) fun _ => Set.Subset.rfl
    cases result with
    | handle h => exact (leaves_releaseIn h).mono fun _ => Set.empty_subset _
    | _ => exact clears_pure Set.Subset.rfl

/-! ### What is left of an answer -/

/-- The call was answered with the handle, but the promise could not be kept with it. -/
def Unkept (P : Peer) (patience : Nat) (own : List (Instant P)) (h : Handle) : Prop :=
  ∃ (name : String) (call : Json) (c : Answering P patience name call own) (e : Error),
    c.outcome = .ok (.handle h) ∧
      Concludes P patience (settle patience name call c.outcome) c.settling (.error e)

/-- To look for the function leaves nothing. -/
theorem leftBy_found (w : World P) (name : String) :
    leftBy false ∅ [(⟨w, .host name⟩ : Instant P)] ⊆ ∅ := by
  show (∅ : Set Handle) \ ∅ ∪ ∅ ⊆ ∅
  rw [Set.sdiff_empty, Set.union_empty]

/-- Nothing is left of the answer to a call but a handle with which the promise could not be kept. -/
theorem leftBy_answering {name : String} {call : Json} {own : List (Instant P)}
    (c : Answering P patience name call own) : leftBy false ∅ own ⊆ {h | Unkept P patience own h} := by
  obtain ⟨r, hsettling⟩ := c.settled
  have htook := leftBy_subset false (leaves_takeArguments name call)
    (leftBy_found c.found name) c.took
  have hran := leftBy_subset false ((leaves_answerHost c.host c.args).keep (among c.args))
    htook c.ran
  have hreleased := leftBy_subset false
    ((leaves_releases c.args).frame (onSuccess carried c.outcome))
    (hran.trans (Set.union_comm _ _).subset) c.released
  have hsettled := leftBy_subset false (leaves_settle name call c.outcome)
    (hreleased.trans (Set.empty_union _).subset) hsettling
  intro h hleft
  rw [c.whole] at hleft
  simp only [leftBy_append] at hleft
  have hin := hsettled hleft
  cases r with
  | ok u => exact absurd hin (Set.notMem_empty h)
  | error e =>
    refine ⟨name, call, c, e, ?_, hsettling⟩
    revert hin
    show h ∈ onSuccess carried c.outcome → c.outcome = .ok (.handle h)
    rcases c.outcome with e | v | h' | _
    · exact fun hin => absurd hin (Set.notMem_empty h)
    · exact fun hin => absurd hin (Set.notMem_empty h)
    · exact fun hin => congrArg (fun h => Except.ok (Argument.handle h)) (Eq.symm hin)
    · exact fun hin => absurd hin (Set.notMem_empty h)

/-- Whoever handles an event leaves nothing else. -/
theorem leftBy_handle {e : Protocol.Event} {own : List (Instant P)}
    (h : Ends (backend P patience) (handle patience e) own ()) :
    leftBy false ∅ own ⊆ {h | Unkept P patience own h} := by
  have hnone {record : List (Instant P)} (hrecord : record = []) :
      leftBy false ∅ record ⊆ {h | Unkept P patience own h} := by
    rw [hrecord]
    exact Set.empty_subset _
  unfold handle at h
  split at h
  · cases hname : calledName? e.params with
    | none =>
      rw [hname] at h
      exact hnone (Activity.ends_done h).1
    | some name =>
      rw [hname] at h
      obtain ⟨first, second, r, rfl, hfirst, hsecond⟩ := Activity.ends_bind h
      obtain ⟨rfl, -⟩ := Activity.ends_done hsecond
      rw [List.append_nil] at hnone ⊢
      cases hpayload : Json.ofText? (((e.params.member "payload").string?).getD "\x7b\x7d") with
      | none =>
        unfold answerCall at hfirst
        rw [hpayload] at hfirst
        exact hnone (Concludes.ofThrow hfirst).1
      | some payload =>
        rcases answerCall_cases hpayload hfirst with ⟨found, rfl, -⟩ | ⟨found, taking, e, rfl, hfailed⟩ | ⟨⟨c⟩⟩
        · exact (leftBy_found found name).trans (Set.empty_subset _)
        · exact (leftBy_subset false (leaves_takeArguments name _) (leftBy_found found name)
            hfailed).trans (Set.empty_subset _)
        · exact leftBy_answering c
  · exact hnone (Activity.ends_done h).1

/-! ### What is disposed when a call has been answered -/

/-- The promise is ended last. -/
theorem Answering.suffix {name : String} {call : Json} {record : List (Instant P)}
    (c : Answering P patience name call record) : c.settling <:+ record :=
  ⟨[⟨c.found, .host name⟩] ++ (c.taking ++ (c.running ++ c.releasing)), by
    simp only [List.append_assoc]
    exact c.whole.symm⟩

/-- When the promise is kept with a handle, the handle is released. -/
theorem released_of_settle {name : String} {call : Json} {h : Handle} {record : List (Instant P)}
    (hr : Concludes P patience (settle patience name call (.ok (.handle h))) record (.ok ())) :
    Released record h := by
  rcases Concludes.andThen hr with ⟨e, hfailed, -⟩ | ⟨first, second, value, rfl, -, hsecond⟩
  · cases hfailed
  rcases Concludes.andThen hsecond with ⟨e, hfailed, -⟩ | ⟨third, fourth, v, rfl, -, hfourth⟩
  · cases hfailed
  obtain ⟨w, hreleased⟩ := (concludes_releaseIn hfourth).2
  exact ⟨w, List.mem_append_right _ (List.mem_append_right _ hreleased)⟩

/-- What has become of the handles of a call that has been answered. -/
structure Disposing (P : Peer) (patience : Nat) (own : List (Instant P)) (last : World P) : Prop where
  /-- Whatever handle was made for it is disposed, but for one with which the promise could not be kept. -/
  made : ∀ h, Made own h → last.isDisposed h = true ∨ Unkept P patience own h
  /-- So is the handle that its function has returned, wherever that is from. -/
  returned : ∀ {name : String} {call : Json} (c : Answering P patience name call own) (h : Handle) (w : World P)
    (rest : List (Instant P)), c.outcome = .ok (.handle h) → c.settling = ⟨w, .isDisposed h⟩ :: rest →
      h.id < w.ledger.size → last.isDisposed h = true ∨ Unkept P patience own h

/-- When an event has been handled, amid whatever others do, the array of the arguments of the call, the
arguments and the handle that the function has returned are disposed, and stay so.  The returned handle is
left alone when the promise could not be kept with it. -/
theorem disposed_of_dispatched {start tl : Activity.Timeline side.signature (backend P patience).World}
    {deeds : List (Deed (backend P patience))} {id : Nat} {e : Protocol.Event}
    (hrun : Mingled (backend P patience) start deeds tl) (hnumbered : Numbered start)
    (htask : ⟨id, handle patience e⟩ ∈ start.tasks) (hgone : ∀ task ∈ tl.tasks, task.id ≠ id) :
    Disposing P patience (Activity.asked id deeds) tl.world := by
  have hends := hrun.ends_of_gone hnumbered htask hgone
  obtain ⟨-, hages, hsince⟩ := hrun.ages (R := Ages) ages_refl ages_trans ages_answer
  have haged := hages.asked id
  have hlast : ∀ m ∈ Activity.asked id deeds, Ages (Activity.Moment.after (B := backend P patience) m) tl.world := by
    intro m hm
    obtain ⟨d, hd, rfl⟩ := List.mem_map.mp ((Activity.asked_sublist id deeds).subset hm)
    exact hsince d hd
  refine ⟨fun h hmade => ?_, fun c h w rest houtcome hsettling hexists => ?_⟩
  · rcases isDisposed_of_made false haged hlast hmade with hdisposed | hretained | hleft
    · exact Or.inl hdisposed
    · exact absurd hretained.1 Bool.false_ne_true
    · exact Or.inr (leftBy_handle hends hleft)
  · obtain ⟨r, hsettled⟩ := c.settled
    cases r with
    | error e => exact Or.inr ⟨_, _, c, e, houtcome, hsettled⟩
    | ok u =>
      rw [houtcome] at hsettled
      obtain ⟨v, hreleased⟩ := released_of_settle hsettled
      -- The program looks at the handle before it releases it.
      have horder := haged.order.sublist c.suffix.sublist
      have hmem : (⟨v, .dispose h⟩ : Instant P) ∈ Activity.asked id deeds := c.suffix.subset hreleased
      rw [hsettling] at horder hreleased
      have hgrown : Ages w v :=
        List.rel_of_pairwise_cons horder ((List.mem_cons.mp hreleased).resolve_left nofun)
      exact Or.inl (isDisposed_of_ages (Nat.lt_of_lt_of_le hexists hgrown.size) (hlast _ hmem))

/-- All handles of a call are disposed whose promise is kept. -/
theorem disposed_of_caller :
    Disposing caller 0 (Activity.asked 0 (callerDeeds giveNothing)) (callerEnd giveNothing).world ∧
      (callerEnd giveNothing).tasks.isEmpty = true :=
  ⟨disposed_of_dispatched (mingled_caller giveNothing) (numbered_caller giveNothing)
    (List.mem_singleton_self _) (by decide +kernel), by decide +kernel⟩

/-! ### A page that does not hear the answer -/

/-- A page that cannot be told the answer to its calls. -/
def deaf : Peer where
  State := Unit
  command method doc _ :=
    let told := (doc.member "functionDeclaration").string? = some Script.resolveCall
    (⟨0, if told then .error (.protocol "Promise was collected") else .ok (callerReply method)⟩, [], ())
  listen _ := .ok ()
  close _ := (.ok (), ())

/-- A handle from before. -/
def kept : Handle := ⟨0, { Protocol.RemoteObject.empty with objectId := some "kept" }⟩

/-- A function that gives it to the page. -/
def giveKept (_ : List Handle) : Except Error (Argument Handle) := .ok (.handle kept)

/-- The event of a call of that function is about to be handled. -/
def deafStart : Activity.Timeline side.signature (backend deaf 0).World :=
  { Activity.Timeline.init (S := side.signature)
      { World.init (P := deaf) () "bundle" with hosts := [("f", .native giveKept)], ledger := #[false] } with
    tasks := [⟨0, handle 0 callerEvent⟩]
    nextTask := 1 }

/-- What is asked until the event has been handled. -/
def deafDeeds : List (Deed (backend deaf 0)) :=
  Activity.deedsOf (some 0) ((deafStart.besides 0).questions (backend deaf 0)
    (Activity.Timeline.onward (deafStart.besides 0) (handle 0 callerEvent)))

/-- The event has been handled. -/
def deafEnd : Activity.Timeline side.signature (backend deaf 0).World :=
  Activity.Timeline.runTask (backend deaf 0) deafStart 0

/-- The page is sent an answer that has the reference to that handle. -/
def sendsKept (m : Instant deaf) : Bool :=
  match m.query with
  | .command _ doc =>
    ((doc.member "arguments").items?.getD []).any fun arg => (arg.member "objectId").string? == some "kept"
  | _ => false

/-- The event has been handled and the handle that the function gave has been sent to the page, but nobody
has disposed it. -/
theorem spilled_by_deaf :
    Mingled (backend deaf 0) deafStart deafDeeds deafEnd ∧ deafEnd.tasks.isEmpty = true ∧
      (Activity.asked 0 deafDeeds).any sendsKept = true ∧ World.isDisposed (P := deaf) deafEnd.world kept = false := by
  have hnumbered : Numbered deafStart := ⟨List.nodup_singleton 0, fun task htask => by
    rw [List.mem_singleton.mp htask]
    exact Nat.zero_lt_one⟩
  have hfind : deafStart.tasks.find? (·.id == 0) = some ⟨0, handle 0 callerEvent⟩ := rfl
  have hturn := Mingled.start.turn hnumbered hfind
  rw [List.nil_append] at hturn
  exact ⟨hturn, by decide +kernel, by decide +kernel, by decide +kernel⟩

end Wayfind.Remote
