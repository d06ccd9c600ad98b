/-
Running activities in virtual time.

One activity is in the foreground, any number work in the background.  A background
activity that can go on waits in a queue, in the order in which each was woken; the
foreground goes on when the queue is empty.  Whatever runs goes on until a request has
to wait, and no time passes.  When nothing can go on, the clock moves to the next time
that somebody waits for.

`Run.step` is one turn of this; a run is the repetition of turns until the foreground
has ended and the queue is empty, or a limit is reached, or nothing will ever happen.
-/
import Wayfind.Activity.Basic

namespace Wayfind.Activity

/-- An inbox: the messages in it, oldest first, and whether it is closed. -/
structure InboxState (M : Type) where
  messages : List M
  closed : Bool

/-- A background activity, suspended, under its number. -/
structure Task (S : Signature) where
  id : Nat
  activity : Activity S Unit

/-- What the requests of activities of a kind mean. -/
structure Backend (S : Signature) where
  World : Type
  /-- The answer to a question, the world after it, and the jobs it sets off. -/
  answer : (q : S.Query) → World → S.Answer q × World × List S.Job
  /-- The activity of a forked job. -/
  start : S.Job → Activity S Unit
  /-- The jobs that discard a message nobody will take. -/
  discard : S.Message → List S.Job

/-- Everything but the foreground. -/
structure Timeline (S : Signature) (World : Type) where
  world : World
  /-- The time, in milliseconds. -/
  clock : Nat
  tokens : Tokens
  inboxes : Array (InboxState S.Message)
  /-- The background activities, oldest first. -/
  tasks : List (Task S)
  /-- The numbers of the background activities that were woken, in that order. -/
  ready : List Nat
  nextTask : Nat
  /-- How many actions were announced. -/
  announced : Nat

namespace Timeline

variable {S : Signature} {World α : Type}

/-- A world in which nothing runs yet. -/
def init (world : World) : Timeline S World :=
  ⟨world, 0, .empty, #[], [], [], 0, 0⟩

/-- The token is cancelled. -/
def isCancelled (tl : Timeline S World) (t : Token) : Bool :=
  tl.tokens.isCancelled t

/-- Queues background activities that are not queued yet. -/
def wake (tl : Timeline S World) (ids : List Nat) : Timeline S World :=
  { tl with ready := ids.foldl (fun queue i => if queue.contains i then queue else queue ++ [i]) tl.ready }

/-- The numbers of the background activities for which something holds. -/
def tasksWhere (tl : Timeline S World) (holds : Activity S Unit → Bool) : List Nat :=
  (tl.tasks.filter fun t => holds t.activity).map (·.id)

/-- The activity may be interrupted by the token. -/
def watches (t : Token) : Activity S α → Bool
  | .done _ => false
  | .ask _ watched _ _ _ => watched.contains t

/-- The activity waits for a message in the inbox. -/
def takesFrom (inbox : Inbox) : Activity S α → Bool
  | .ask (.take i) _ _ _ _ => i == inbox
  | _ => false

/-- The time the activity waits for. -/
def wakeTime : Activity S α → Option Nat
  | .ask (.sleepUntil time) _ _ _ _ => some time
  | _ => none

/-- Forks a job: its activity joins the queue. -/
def fork (B : Backend S) (tl : Timeline S World) (job : S.Job) : Timeline S World :=
  { tl with
    tasks := tl.tasks ++ [⟨tl.nextTask, B.start job⟩]
    ready := tl.ready ++ [tl.nextTask]
    nextTask := tl.nextTask + 1 }

/-- Forks jobs in order. -/
def forkAll (B : Backend S) (tl : Timeline S World) (jobs : List S.Job) : Timeline S World :=
  jobs.foldl (fork B) tl

/-- Cancels one token alone, and wakes whom it interrupts. -/
def cancelOne (tl : Timeline S World) (t : Token) : Timeline S World :=
  if tl.isCancelled t then tl
  else
    let marked := { tl with tokens := tl.tokens.mark t }
    marked.wake (marked.tasksWhere (watches t))

/-- Cancels a token and every token made under it. -/
def cancel (tl : Timeline S World) (t : Token) : Timeline S World :=
  (tl.tokens.under t).foldl cancelOne tl

/-- The messages in an inbox. -/
def messages (tl : Timeline S World) (inbox : Inbox) : List S.Message :=
  (tl.inboxes[inbox]?.map (·.messages)).getD []

/-- Changes an inbox. -/
def modifyInbox (tl : Timeline S World) (inbox : Inbox)
    (change : InboxState S.Message → InboxState S.Message) : Timeline S World :=
  { tl with inboxes := tl.inboxes.modify inbox change }

/-- Puts a message into an inbox and wakes its reader, unless the inbox is closed. -/
def post (tl : Timeline S World) (inbox : Inbox) (m : S.Message) : Bool × Timeline S World :=
  if tl.inboxes[inbox]?.any (!·.closed) then
    let posted := tl.modifyInbox inbox fun s => { s with messages := s.messages ++ [m] }
    (true, posted.wake (posted.tasksWhere (takesFrom inbox)))
  else (false, tl)

/-- Closes an inbox and discards what it holds. -/
def close (B : Backend S) (tl : Timeline S World) (inbox : Inbox) : Timeline S World :=
  let left := tl.messages inbox
  (tl.modifyInbox inbox fun _ => ⟨[], true⟩).forkAll B (left.flatMap B.discard)

/-- Answers a request, if it can be answered now. -/
def perform (B : Backend S) (tl : Timeline S B.World) :
    (r : Request S) → Option (r.Answer × Timeline S B.World)
  | .query q =>
    let (a, world, jobs) := B.answer q tl.world
    some (a, forkAll B { tl with world := world } jobs)
  | .clock => some (tl.clock, tl)
  | .sleepUntil time => if time ≤ tl.clock then some ((), tl) else none
  | .forever => none
  | .fork job => some ((), tl.fork B job)
  | .newToken parent =>
    let (t, tokens) := tl.tokens.make parent
    some (t, { tl with tokens := tokens })
  | .isCancelled t => some (tl.isCancelled t, tl)
  | .cancel t => some ((), tl.cancel t)
  | .discard t => some ((), { tl with tokens := tl.tokens.discard t })
  | .newInbox => some (tl.inboxes.size, { tl with inboxes := tl.inboxes.push ⟨[], false⟩ })
  | .post inbox m => some (tl.post inbox m)
  | .take inbox =>
    match tl.messages inbox with
    | m :: rest => some (m, tl.modifyInbox inbox fun s => { s with messages := rest })
    | [] => none
  | .close inbox => some ((), tl.close B inbox)
  | .announce => some ((), { tl with announced := tl.announced + 1 })

/-- Lets an activity go on until it ends or a request has to wait. -/
def advance (B : Backend S) : Activity S α → Timeline S B.World → Activity S α × Timeline S B.World
  | .done a, tl => (.done a, tl)
  | .ask r watched duties next stop, tl =>
    match perform B tl r with
    | some (a, tl) => advance B (next a) tl
    | none => (.ask r watched duties next stop, tl)

/-- Lets a suspended activity go on: interrupted if a token it watches is cancelled. -/
def resume (B : Backend S) (p : Activity S α) (tl : Timeline S B.World) :
    Activity S α × Timeline S B.World :=
  match p with
  | .done a => (.done a, tl)
  | .ask r watched duties next stop =>
    match h : watched.find? tl.isCancelled with
    | some t => advance B (stop t (List.mem_of_find?_eq_some h)) tl
    | none => advance B (.ask r watched duties next stop) tl

/-- A suspended activity can go on. -/
def canResume (tl : Timeline S World) : Activity S α → Bool
  | .done _ => false
  | .ask r watched _ _ _ =>
    watched.any tl.isCancelled || match r with
      | .sleepUntil time => time ≤ tl.clock
      | .take inbox => !(tl.messages inbox).isEmpty
      | .forever => false
      | _ => true

/-- Lets the background activity with a number go on. -/
def runTask (B : Backend S) (tl : Timeline S B.World) (id : Nat) : Timeline S B.World :=
  match tl.tasks.find? (·.id == id) with
  | none => tl
  | some task =>
    let (p, tl) := resume B task.activity { tl with tasks := tl.tasks.filter (·.id != id) }
    match p with
    | .done () => tl
    | p => { tl with tasks := tl.tasks ++ [⟨id, p⟩] }

/-- The earliest time a background activity waits for. -/
def nextWake (tl : Timeline S World) : Option Nat :=
  (tl.tasks.filterMap fun t => wakeTime t.activity).min?

/-- Moves the clock, and wakes the background activities whose time has come. -/
def moveClock (tl : Timeline S World) (time : Nat) : Timeline S World :=
  let moved := { tl with clock := time }
  moved.wake (moved.tasksWhere fun p => (wakeTime p).any (· ≤ time))

/-- Fulfils the duties of an activity that is dropped where it is. -/
def drop (B : Backend S) (p : Activity S α) (tl : Timeline S B.World) : Timeline S B.World :=
  match p with
  | .done _ => tl
  | .ask _ _ duties _ _ => (advance B (fulfilThen (.done ()) duties) tl).2

end Timeline

/-- A foreground activity in its timeline, and the time when it is given up. -/
structure Run (S : Signature) (World α : Type) where
  main : Activity S α
  timeline : Timeline S World
  limit : Option Nat

namespace Run

variable {S : Signature} {α : Type}

/-- The foreground has ended. -/
def isDone {World : Type} (run : Run S World α) : Bool :=
  match run.main with
  | .done _ => true
  | _ => false

/-- The limit is reached. -/
def isOver {World : Type} (run : Run S World α) : Bool := run.limit.any (· ≤ run.timeline.clock)

/-- The next time that somebody waits for. -/
def nextTime {World : Type} (run : Run S World α) : Option Nat :=
  ((Timeline.wakeTime run.main).toList ++ run.timeline.nextWake.toList ++ run.limit.toList).min?

/-- One turn; none when the run is over. -/
def step (B : Backend S) (run : Run S B.World α) : Option (Run S B.World α) :=
  match run.timeline.ready with
  | id :: rest => some { run with timeline := Timeline.runTask B { run.timeline with ready := rest } id }
  | [] =>
    if run.isDone then none
    else if run.timeline.canResume run.main then
      let (main, timeline) := Timeline.resume B run.main run.timeline
      some { run with main := main, timeline := timeline }
    else if run.isOver then none
    else match run.nextTime with
      | some time => some { run with timeline := run.timeline.moveClock time }
      | none => none

/-- Takes turns until the run is over. -/
def finish (B : Backend S) : Nat → Run S B.World α → Run S B.World α
  | 0, run => run
  | fuel + 1, run =>
    match run.step B with
    | some next => finish B fuel next
    | none => run

/-- Starts a foreground activity: it goes on until a request has to wait. -/
def start (B : Backend S) (main : Activity S α) (timeline : Timeline S B.World) (limit : Option Nat) :
    Run S B.World α :=
  let (main, timeline) := Timeline.advance B main timeline
  ⟨main, timeline, limit⟩

end Run

end Wayfind.Activity
