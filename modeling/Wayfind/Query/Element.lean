/-
Queries for elements: the first match, every match, and a match that is waited for.

A dialect that is no more than its scripts runs them in the page.  The accessible
dialect asks the accessibility tree instead and adopts the nodes it names.

Every match means to pull: a query for every match is a value that says what is left of
it, and nothing is sent before somebody asks for the next match.  Matches come out of an
iterator in the page in batches, and each batch is fetched when the one before is used up.
-/
import Wayfind.Json.Writer
import Wayfind.Page.Side
import Wayfind.Query.Registry
import Wayfind.Selector.Accessible

namespace Wayfind

open PageSide (Action releaseDuty)

variable {B : PageSide}

/-- Keeps a handle of an element; releases any other and gives nothing. -/
def Realm.keepElement (realm : Realm B) (handle : B.Handle) : B.Action (Option B.Handle) := do
  if realm.isElement handle then return some handle
  realm.releaseIn handle
  return none

/-- Keeps the handles of elements among several, and releases the others. -/
def Realm.keepElements (realm : Realm B) : List B.Handle → B.Action (List B.Handle)
  | [] => return []
  | handle :: rest => do
    let kept ← realm.keepElement handle
    return kept.toList ++ (← realm.keepElements rest)

namespace Query

/-- The document nodes under a root that an accessible name and role single out. -/
def accessibleIds (realm : Realm B) (root : B.Handle) (selector : String) : B.Action (List Int) := do
  let wanted ← Action.ofExcept (Selector.Accessible.ofText selector)
  return Protocol.AccessibleNode.candidates (← realm.accessibleNodes root wanted.name wanted.role)

/-- The first of the accessible nodes under a root. -/
def accessibleFirst (realm : Realm B) (root : B.Handle) (selector : String) :
    B.Action (Option B.Handle) := do
  match ← accessibleIds realm root selector with
  | [] => return none
  | id :: _ => return some (← realm.adopt id)

/-- What a page is told when it asks for the first accessible node under a root. -/
def answerAccessible (realm : Realm B) (args : List B.Handle) : B.Action (Argument B.Handle) := do
  match args with
  | root :: selector :: _ =>
    match ← realm.jsonValue selector with
    | .string text =>
      match ← accessibleFirst realm root text with
      | some handle => return .handle handle
      | none => return .value .null
    | other => throw (.invalidSelector ("Expected a string selector, got " ++ other.compact))
  | _ => throw (.queryHandler "ariaQuerySelector expects (root, selector)")

/-- What a page is told when it calls a function of the program. -/
def answerHost (realm : Realm B) (host : Host B.Handle) (args : List B.Handle) :
    B.Action (Argument B.Handle) :=
  match host with
  | .aria => answerAccessible realm args
  | .native run => Action.ofExcept (run args)

/-- A text as an argument. -/
def textArgument (text : String) : Argument B.Handle := .value (.string text)

namespace Handler

/-- The first element under a root that a selector matches. -/
def first (h : Handler) (realm : Realm B) (root : B.Handle) (selector : String) :
    B.Action (Option B.Handle) := do
  if h.dialect = .aria then accessibleFirst realm root selector
  else
    let query := h.prepare selector
    let utility ← realm.utility
    let result ← realm.evaluateHandle root query.scripts.one
      [textArgument query.selector, .handle utility]
    realm.keepElement result

/-- The functions that a prepared selector may call. -/
def bindings (query : Prepared) : List (Binding B.Handle) :=
  if query.asksAria then [⟨ariaFunctionName, .aria⟩] else []

/-- Waits until a selector matches under a root, or in the document; no handle when the wait for
its absence succeeded. -/
def await (h : Handler) (realm : Realm B) (root : Option B.Handle) (selector : String)
    (wait : SelectorWait) : B.Action (Option B.Handle) := do
  let query := h.prepare selector
  let utility ← realm.utility
  let checked := wait.visible || wait.hidden
  let args := [.handle utility, textArgument query.scripts.one, textArgument query.selector,
    (root.map Argument.handle).getD .undefined] ++
    (if checked then [.value (.bool wait.visible)] else [])
  let polling := if checked then Polling.frame else Polling.mutation
  let result ← realm.waitFor waitScript ⟨wait.timeout, polling⟩ (bindings query) args
  realm.keepElement result

end Handler

/-- What is left of a query for every match. -/
inductive Matches (B : PageSide) where
  /-- Everything: nothing was asked yet. -/
  | unopened (root : B.Handle) (query : Prepared)
  /-- The elements that were fetched and not taken, and, unless it has ended, what the iterator
  in the page still holds. -/
  | iterating (iterator : B.Handle) (fetched : List B.Handle) (ended : Bool)
  /-- Everything: the accessibility tree was not asked yet. -/
  | unasked (root : B.Handle) (selector : String)
  /-- The document nodes not adopted yet. -/
  | nodes (ids : List Int)
  | nothing

/-- The query for every element under a root that a selector matches. -/
def Handler.every (h : Handler) (root : B.Handle) (selector : String) : Matches B :=
  if h.dialect = .aria then .unasked root selector else .unopened root (h.prepare selector)

namespace Matches

/-- Opens the iterator over every match. -/
def openIterator (realm : Realm B) (root : B.Handle) (query : Prepared) : B.Action B.Handle := do
  let utility ← realm.utility
  realm.evaluateHandle root iteratorScript
    [textArgument query.scripts.all, textArgument query.selector, .handle utility]

/-- Fetches a batch: its elements, and whether the iterator has ended, as a short batch tells. -/
def fetchBatch (realm : Realm B) (iterator : B.Handle) : B.Action (List B.Handle × Bool) := do
  let array ← realm.evaluateHandle iterator batchScript [.value (.nat batchSize)]
  let items ← (realm.arrayItems array).attempt
  realm.releaseIn array
  let items ← Action.ofExcept items
  let ended := items.length < batchSize
  return (← realm.keepElements items, ended)

/-- A match, the error in its place, or nothing at the end; and what is left of the query. -/
abbrev Step (B : PageSide) : Type := Option (Except Error B.Handle) × Matches B

/-- Pulls out of an iterator, fetching at most so many batches. -/
def pull (realm : Realm B) (iterator : B.Handle) : Nat → List B.Handle → Bool → B.Task (Step B)
  | _, handle :: rest, ended => return (some (.ok handle), iterating iterator rest ended)
  | _, [], true => do
    realm.release iterator
    return (none, nothing)
  | 0, [], false => Activity.never
  | fuel + 1, [], false => do
    match ← Activity.protect [releaseDuty iterator] (fetchBatch realm iterator).outcome with
    | .ok (elements, ended) => pull realm iterator fuel elements ended
    | .error e =>
      realm.release iterator
      return (some (.error e), nothing)

/-- Adopts the next document node. -/
def adoptNext (realm : Realm B) : List Int → B.Task (Step B)
  | [] => return (none, nothing)
  | id :: rest => return (some (← (realm.adopt id).outcome), nodes rest)

/-- Asks for the next match. -/
def next (realm : Realm B) (patience : Nat) : Matches B → B.Task (Step B)
  | unopened root query => do
    match ← (openIterator realm root query).outcome with
    | .ok iterator => pull realm iterator patience [] false
    | .error e => return (some (.error e), nothing)
  | iterating iterator fetched ended => pull realm iterator patience fetched ended
  | unasked root selector => do
    match ← (accessibleIds realm root selector).outcome with
    | .ok ids => adoptNext realm ids
    | .error e => return (some (.error e), nothing)
  | nodes ids => adoptNext realm ids
  | nothing => return (none, nothing)

/-- The duties of whoever gives up a query: to release its iterator and what was fetched. -/
def duties : Matches B → List (Activity.Duty B.signature)
  | iterating iterator fetched _ => (iterator :: fetched).map releaseDuty
  | _ => []

/-- Gives up a query. -/
def abandon (m : Matches B) : B.Task Unit := Activity.fulfilThen (.done ()) m.duties

/-- Takes matches, at most so many where a number is given, until the end or an error: what was
taken, the error, and what is left. -/
def take (realm : Realm B) (patience : Nat) (limit : Option Nat) :
    Nat → Matches B → B.Task (List B.Handle × Option Error × Matches B)
  | 0, _ => Activity.never
  | fuel + 1, m => do
    if limit = some 0 then return ([], none, m)
    match ← next realm patience m with
    | (some (.ok handle), m) =>
      let (taken, failure, m) ← take realm patience (limit.map (· - 1)) fuel m
      return (handle :: taken, failure, m)
    | (some (.error e), m) => return ([], some e, m)
    | (none, m) => return ([], none, m)

/-- Takes every match; after an error the query is given up. -/
def all (realm : Realm B) (patience : Nat) (m : Matches B) : B.Action (List B.Handle) := do
  let (taken, failure, m) ← (ExceptT.lift (take realm patience none patience m) : B.Action _)
  ExceptT.lift m.abandon
  match failure with
  | some e => throw e
  | none => return taken

end Matches

end Query

/-- The place a page is scrolled to. -/
def Pages.scrollPosition (pages : Pages B) (page : B.Page) : B.Action (Float × Float) := do
  let place ← pages.evaluate page "() => [window.scrollX, window.scrollY]" []
  let part (i : Nat) : Float := ((place.item i).float?).getD 0
  return (part 0, part 1)

end Wayfind
