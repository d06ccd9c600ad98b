/-
Activities: what runs, suspends, is interrupted and dropped.

An activity is a tree of requests.  Every request says how the activity goes on with the
answer, which cancellation tokens may interrupt it while it is under way and what then
happens, and which duties fall due should the activity be dropped there: handles to
release, tokens to cancel, inboxes to close.

Being data, an activity can be taken apart: `guard` puts a token over every request of
one, `protect` a duty, and a scheduler runs one up to the first request that has to wait.
-/
import Wayfind.Activity.Token

namespace Wayfind

namespace Activity

/-- A queue of messages with one reader. -/
abbrev Inbox := Nat

/-- What activities of a kind may ask for, fork and send. -/
structure Signature where
  /-- Questions to the world, answered at once. -/
  Query : Type
  Answer : Query → Type
  /-- Work that can be forked. -/
  Job : Type
  /-- What inboxes carry. -/
  Message : Type

/-- A single request of an activity. -/
inductive Request (S : Signature) where
  | query (q : S.Query)
  /-- The time. -/
  | clock
  /-- Waits until a time. -/
  | sleepUntil (time : Nat)
  /-- Waits without end. -/
  | forever
  | fork (job : S.Job)
  /-- A new token, cancelled together with its parent. -/
  | newToken (parent : Option Token)
  | isCancelled (t : Token)
  | cancel (t : Token)
  /-- Lets go of a token that nobody will cancel any more. -/
  | discard (t : Token)
  | newInbox
  /-- Puts a message into an inbox; answers whether it is still open. -/
  | post (inbox : Inbox) (m : S.Message)
  /-- Waits for a message. -/
  | take (inbox : Inbox)
  /-- Closes an inbox and discards what it holds. -/
  | close (inbox : Inbox)
  /-- Tells observers that an action is about to run. -/
  | announce

/-- The type of the answer to a request. -/
def Request.Answer {S : Signature} : Request S → Type
  | query q => S.Answer q
  | clock => Nat
  | sleepUntil _ => Unit
  | forever => Empty
  | fork _ => Unit
  | newToken _ => Token
  | isCancelled _ => Bool
  | cancel _ => Unit
  | discard _ => Unit
  | newInbox => Inbox
  | post _ _ => Bool
  | take _ => S.Message
  | close _ => Unit
  | announce => Unit

/-- What falls due when an activity is dropped. -/
inductive Duty (S : Signature) where
  | fork (job : S.Job)
  | cancel (t : Token)
  | close (inbox : Inbox)

end Activity

/-- An activity that ends with an `α`. -/
inductive Activity (S : Activity.Signature) (α : Type) : Type where
  | done (a : α)
  /-- A request, the tokens that may interrupt it, the duties should the activity be dropped
  here, how it goes on with the answer, and how when a token has interrupted it. -/
  | ask (r : Activity.Request S) (watched : List Activity.Token) (duties : List (Activity.Duty S))
      (next : r.Answer → Activity S α) (stop : (t : Activity.Token) → t ∈ watched → Activity S α)

namespace Activity

variable {S : Signature} {α β : Type}

/-- An activity followed by another. -/
def bind : Activity S α → (α → Activity S β) → Activity S β
  | done a, f => f a
  | ask r watched duties next stop, f =>
    ask r watched duties (fun a => bind (next a) f) (fun t h => bind (stop t h) f)

instance : Monad (Activity S) where
  pure := done
  bind := bind

/-- A single request, which nothing interrupts. -/
def perform (r : Request S) : Activity S r.Answer :=
  ask r [] [] done (fun _ h => nomatch h)

/-- A question to the world. -/
def query (q : S.Query) : Activity S (S.Answer q) := perform (.query q)

/-- Waits without end. -/
def never : Activity S α :=
  ask .forever [] [] (fun e => nomatch e) (fun _ h => nomatch h)

/-- Fulfils a duty. -/
def fulfil : Duty S → Activity S Unit
  | .fork job => perform (.fork job)
  | .cancel t => perform (.cancel t)
  | .close inbox => perform (.close inbox)

/-- Fulfils duties in order, and goes on. -/
def fulfilThen (next : Activity S α) : List (Duty S) → Activity S α
  | [] => next
  | d :: rest => bind (fulfil d) fun _ => fulfilThen next rest

/-- The activity with further duties, due after its own, wherever it may be dropped. -/
def protect (duties : List (Duty S)) : Activity S α → Activity S α
  | done a => done a
  | ask r watched own next stop =>
    ask r watched (own ++ duties) (fun a => protect duties (next a))
      (fun t h => protect duties (stop t h))

/-- The activity under a token: when it is cancelled while a request is under way, the activity
is dropped there and the given one takes its place. -/
def guard (token : Token) (halt : Activity S α) : Activity S α → Activity S α
  | done a => done a
  | ask r watched duties next stop =>
    ask r (token :: watched) duties (fun a => guard token halt (next a)) fun t h =>
      if same : t = token then fulfilThen halt duties
      else guard token halt (stop t ((List.mem_cons.1 h).resolve_left same))

/-- Sleeps for a number of milliseconds. -/
def sleep (ms : Nat) : Activity S Unit := do
  let now : Nat ← perform .clock
  perform (.sleepUntil (now + ms))

/-! ### Laws of sequence -/

theorem bind_done (p : Activity S α) : bind p done = p := by
  induction p with
  | done => rfl
  | ask r watched duties next stop ihn ihs =>
    simp only [bind, ihn, ihs]

theorem bind_assoc {γ : Type} (p : Activity S α) (f : α → Activity S β) (g : β → Activity S γ) :
    bind (bind p f) g = bind p fun a => bind (f a) g := by
  induction p with
  | done => rfl
  | ask r watched duties next stop ihn ihs =>
    simp only [bind, ihn, ihs]

instance : LawfulMonad (Activity S) :=
  LawfulMonad.mk' (Activity S) bind_done (fun _ _ => rfl) bind_assoc

end Activity

end Wayfind
