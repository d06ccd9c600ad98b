/-
Queries of the accessibility tree.

Three parts of the program ask the accessibility tree: a query for the first match, a query for every
match, and the function that page scripts call back.  All of them ask for the nodes under a root, count
those that are neither ignored nor static text and stand for a document node, and adopt document nodes.
What each of them asks and what comes of it is said here once, in terms of the replies, and the three
come out the same (`accessible_ways_agree`): the first pull out of a query for every match and the answer
to a page are the first match, whatever the replies are and whatever else happens in between.
-/
import Wayfind.Proofs.Remote.Concluding
import Wayfind.Proofs.Selector.Attributes

namespace Wayfind.Remote

open Activity (Asks Ends Walk)
open Protocol (RemoteObject AccessibleNode)
open Wayfind.Query (Handler Matches)
open Selector (Accessible)

variable {P : Peer} {patience : Nat} {α β : Type}

/-! ### The accessibility tree -/

/-- The parameters of a query for the nodes under a reference with a name and a role. -/
def treeParams (id : String) (wanted : Accessible) : Json :=
  params ([("objectId", .string id)] ++
    (wanted.name.map fun n => ("accessibleName", Json.string n)).toList ++
    (wanted.role.map fun r => ("role", Json.string r)).toList)

/-- The document nodes that count: those behind the nodes that are neither ignored nor static text. -/
def counted (nodes : List AccessibleNode) : List Int :=
  nodes.filterMap fun n => if n.ignored = true ∨ n.role = some "StaticText" then none else n.backendId

theorem candidates_eq_counted (nodes : List AccessibleNode) : AccessibleNode.candidates nodes = counted nodes := by
  unfold AccessibleNode.candidates counted
  rw [List.filterMap_filter]
  congr 1
  funext n
  have hcandidate : n.isCandidate = true ↔ ¬ (n.ignored = true ∨ n.role = some "StaticText") := by
    simp [AccessibleNode.isCandidate]
  by_cases h : n.isCandidate = true
  · rw [if_pos h, if_neg (hcandidate.1 h)]
  · rw [if_neg h, if_pos (not_not.1 fun hn => h (hcandidate.2 hn))]

/-- What comes of asking for the nodes under a root that a selector describes. -/
inductive Listed (root : Handle) (selector : String) : List (Instant P) → Except Error (List Int) → Prop
  | invalid {e : Error} (h : Accessible.ofText selector = .error e) : Listed root selector [] (.error e)
  | unreferenced {wanted : Accessible} (h : Accessible.ofText selector = .ok wanted)
      (hroot : root.remote.objectId = none) :
      Listed root selector [] (.error (.internal "Accessibility query root has no object id"))
  | refused {wanted : Accessible} {id : String} {record : List (Instant P)} {e : Error}
      (h : Accessible.ofText selector = .ok wanted) (hroot : root.remote.objectId = some id)
      (hsent : Sent "Accessibility.queryAXTree" (treeParams id wanted) record (.error e)) :
      Listed root selector record (.error e)
  | unreadable {wanted : Accessible} {id : String} {record : List (Instant P)} {reply : Json}
      (h : Accessible.ofText selector = .ok wanted) (hroot : root.remote.objectId = some id)
      (hsent : Sent "Accessibility.queryAXTree" (treeParams id wanted) record (.ok reply))
      (hread : AccessibleNode.listReader.ofJson? reply = none) :
      Listed root selector record (.error (.serialization "an unexpected reply"))
  | listed {wanted : Accessible} {id : String} {record : List (Instant P)} {reply : Json}
      {nodes : List AccessibleNode}
      (h : Accessible.ofText selector = .ok wanted) (hroot : root.remote.objectId = some id)
      (hsent : Sent "Accessibility.queryAXTree" (treeParams id wanted) record (.ok reply))
      (hread : AccessibleNode.listReader.ofJson? reply = some nodes) :
      Listed root selector record (.ok (counted nodes))

/-- What comes of adopting a document node. -/
inductive Adopted (id : Int) : List (Instant P) → Except Error Handle → Prop
  | refused {record : List (Instant P)} {e : Error}
      (hsent : Sent "DOM.resolveNode" (params [("backendNodeId", .int id)]) record (.error e)) :
      Adopted id record (.error e)
  | unreadable {record : List (Instant P)} {reply : Json}
      (hsent : Sent "DOM.resolveNode" (params [("backendNodeId", .int id)]) record (.ok reply))
      (hread : RemoteObject.reader.ofJson? (reply.member "object") = none) :
      Adopted id record (.error (.serialization "an unexpected reply"))
  | adopted {record : List (Instant P)} {reply : Json} {remote : RemoteObject}
      (hsent : Sent "DOM.resolveNode" (params [("backendNodeId", .int id)]) record (.ok reply))
      (hread : RemoteObject.reader.ofJson? (reply.member "object") = some remote) (w : World P) :
      Adopted id (record ++ [⟨w, .wrap remote⟩]) (.ok (w.wrap remote).1)

theorem concludes_adopt_iff {id : Int} {record : List (Instant P)} {r : Except Error Handle} :
    Concludes P patience (adopt id) record r ↔ Adopted id record r := by
  unfold adopt
  rw [Concludes.andThen_iff]
  constructor
  · rintro (⟨e, rfl, h⟩ | ⟨first, second, reply, rfl, hfirst, hsecond⟩)
    · exact .refused (concludes_send_iff.1 h)
    · have hsent := concludes_send_iff.1 hfirst
      rcases hsecond.andThen with ⟨e, rfl, h⟩ | ⟨third, fourth, remote, rfl, hthird, hfourth⟩
      · obtain ⟨rfl, ⟨v, -, h⟩ | ⟨hread, h⟩⟩ := concludes_read_iff.1 h
        · exact absurd h nofun
        · cases h
          rw [List.append_nil]
          exact .unreadable hsent hread
      · obtain ⟨rfl, ⟨v, hread, h⟩ | ⟨-, h⟩⟩ := concludes_read_iff.1 hthird
        · cases h
          obtain ⟨w, rfl, rfl⟩ := concludes_wrap hfourth
          exact .adopted hsent hread w
        · exact absurd h nofun
  · rintro (⟨hsent⟩ | ⟨hsent, hread⟩ | ⟨hsent, hread, w⟩)
    · exact Or.inl ⟨_, rfl, concludes_send_iff.2 hsent⟩
    · exact Or.inr ⟨_, [], _, (List.append_nil _).symm, concludes_send_iff.2 hsent,
        Concludes.andThen_iff.2 (Or.inl ⟨_, rfl, concludes_read_iff.2 ⟨rfl, Or.inr ⟨hread, rfl⟩⟩⟩)⟩
    · exact Or.inr ⟨_, _, _, rfl, concludes_send_iff.2 hsent,
        Concludes.andThen_iff.2 (Or.inr ⟨[], _, _, rfl, concludes_read_iff.2 ⟨rfl, Or.inl ⟨_, hread, rfl⟩⟩,
          concludes_wrap_iff.2 ⟨w, rfl, rfl⟩⟩)⟩

/-- What comes of asking for the nodes under a reference, as they are in the reply. -/
theorem concludes_accessibleNodes_iff {root : Handle} {id : String} (hroot : root.remote.objectId = some id)
    {wanted : Accessible} {record : List (Instant P)} {r : Except Error (List AccessibleNode)} :
    Concludes P patience (root.accessibleNodes wanted.name wanted.role) record r ↔
      (∃ e, r = .error e ∧ Sent "Accessibility.queryAXTree" (treeParams id wanted) record (.error e)) ∨
        ∃ reply, Sent "Accessibility.queryAXTree" (treeParams id wanted) record (.ok reply) ∧
          ((∃ nodes, AccessibleNode.listReader.ofJson? reply = some nodes ∧ r = .ok nodes) ∨
            AccessibleNode.listReader.ofJson? reply = none ∧
              r = .error (.serialization "an unexpected reply")) := by
  have hsame : root.accessibleNodes wanted.name wanted.role =
      (send "Accessibility.queryAXTree" (treeParams id wanted) >>= read AccessibleNode.listReader) := by
    unfold Handle.accessibleNodes Handle.reference
    rw [hroot]
    rfl
  rw [hsame, Concludes.andThen_iff]
  constructor
  · rintro (⟨e, rfl, h⟩ | ⟨first, second, reply, rfl, hfirst, hsecond⟩)
    · exact Or.inl ⟨e, rfl, concludes_send_iff.1 h⟩
    · obtain ⟨rfl, hread⟩ := concludes_read_iff.1 hsecond
      rw [List.append_nil]
      exact Or.inr ⟨reply, concludes_send_iff.1 hfirst, hread⟩
  · rintro (⟨e, rfl, h⟩ | ⟨reply, hsent, hread⟩)
    · exact Or.inl ⟨e, rfl, concludes_send_iff.2 h⟩
    · exact Or.inr ⟨record, [], reply, (List.append_nil _).symm, concludes_send_iff.2 hsent,
        concludes_read_iff.2 ⟨rfl, hread⟩⟩

theorem concludes_accessibleNodes_none {root : Handle} (hroot : root.remote.objectId = none)
    {name role : Option String} {record : List (Instant P)} {r : Except Error (List AccessibleNode)} :
    Concludes P patience (root.accessibleNodes name role) record r ↔
      record = [] ∧ r = .error (.internal "Accessibility query root has no object id") := by
  have hsame : root.accessibleNodes name role =
      MonadExcept.throw (.internal "Accessibility query root has no object id") := by
    unfold Handle.accessibleNodes Handle.reference
    rw [hroot]
    rfl
  rw [hsame]
  exact Concludes.throw_iff

/-- What comes of asking for the document nodes under a root, once the selector is read. -/
theorem concludes_candidates_iff {root : Handle} {selector : String} {wanted : Accessible}
    (hwanted : Accessible.ofText selector = .ok wanted) {record : List (Instant P)}
    {r : Except Error (List Int)} :
    Concludes P patience (root.accessibleNodes wanted.name wanted.role >>= fun nodes =>
        pure (AccessibleNode.candidates nodes)) record r ↔
      Listed root selector record r := by
  rw [Concludes.map_iff]
  constructor
  · rintro ⟨o, h, rfl⟩
    cases hroot : root.remote.objectId with
    | none =>
      obtain ⟨rfl, rfl⟩ := (concludes_accessibleNodes_none hroot).1 h
      exact .unreferenced hwanted hroot
    | some id =>
      rcases (concludes_accessibleNodes_iff hroot).1 h with
        ⟨e, rfl, hsent⟩ | ⟨reply, hsent, ⟨nodes, hread, rfl⟩ | ⟨hread, rfl⟩⟩
      · exact .refused hwanted hroot hsent
      · show Listed root selector record (.ok (AccessibleNode.candidates nodes))
        rw [candidates_eq_counted]
        exact .listed hwanted hroot hsent hread
      · exact .unreadable hwanted hroot hsent hread
  · intro h
    cases h with
    | invalid h => exact absurd (h.symm.trans hwanted) nofun
    | unreferenced h hroot => exact ⟨_, (concludes_accessibleNodes_none hroot).2 ⟨rfl, rfl⟩, rfl⟩
    | refused h hroot hsent =>
      obtain rfl := Except.ok.inj (h.symm.trans hwanted)
      exact ⟨_, (concludes_accessibleNodes_iff hroot).2 (Or.inl ⟨_, rfl, hsent⟩), rfl⟩
    | unreadable h hroot hsent hread =>
      obtain rfl := Except.ok.inj (h.symm.trans hwanted)
      exact ⟨_, (concludes_accessibleNodes_iff hroot).2 (Or.inr ⟨_, hsent, Or.inr ⟨hread, rfl⟩⟩), rfl⟩
    | @listed _ _ _ _ nodes h hroot hsent hread =>
      obtain rfl := Except.ok.inj (h.symm.trans hwanted)
      refine ⟨_, (concludes_accessibleNodes_iff hroot).2 (Or.inr ⟨_, hsent, Or.inl ⟨_, hread, rfl⟩⟩), ?_⟩
      rw [← candidates_eq_counted]
      rfl

theorem concludes_accessibleIds_iff {root : Handle} {selector : String} {record : List (Instant P)}
    {r : Except Error (List Int)} :
    Concludes P patience (Wayfind.Query.accessibleIds (realm patience) root selector) record r ↔
      Listed root selector record r := by
  unfold Wayfind.Query.accessibleIds
  rw [Concludes.andThen_iff]
  constructor
  · rintro (⟨e, rfl, h⟩ | ⟨first, second, wanted, rfl, hfirst, hsecond⟩)
    · obtain ⟨rfl, hinvalid⟩ := Concludes.ofExcept h
      exact .invalid hinvalid.symm
    · obtain ⟨rfl, hwanted⟩ := Concludes.ofExcept hfirst
      exact (concludes_candidates_iff hwanted.symm).1 hsecond
  · intro h
    cases hparsed : Accessible.ofText selector with
    | ok wanted =>
      exact Or.inr ⟨[], record, wanted, rfl, Concludes.ofExcept_iff.2 ⟨rfl, hparsed ▸ rfl⟩,
        (concludes_candidates_iff hparsed).2 h⟩
    | error e =>
      cases h with
      | invalid h => exact Or.inl ⟨_, rfl, Concludes.ofExcept_iff.2 ⟨rfl, h.symm.trans hparsed⟩⟩
      | _ h => exact absurd (h.symm.trans hparsed) nofun

/-! ### The first node -/

/-- What comes of asking for the first node under a root that a selector describes: the handle adopted
for the first document node, or no handle. -/
inductive FirstNode (root : Handle) (selector : String) : List (Instant P) → Except Error (Option Handle) → Prop
  | failed {record : List (Instant P)} {e : Error} (h : Listed root selector record (.error e)) :
      FirstNode root selector record (.error e)
  | none {record : List (Instant P)} (h : Listed root selector record (.ok [])) :
      FirstNode root selector record (.ok none)
  | some {first second : List (Instant P)} {id : Int} {rest : List Int} {o : Except Error Handle}
      (h : Listed root selector first (.ok (id :: rest))) (hadopted : Adopted id second o) :
      FirstNode root selector (first ++ second) (o.map some)

theorem concludes_accessibleFirst_iff {root : Handle} {selector : String} {record : List (Instant P)}
    {r : Except Error (Option Handle)} :
    Concludes P patience (Wayfind.Query.accessibleFirst (realm patience) root selector) record r ↔
      FirstNode root selector record r := by
  refine Concludes.andThen_iff.trans ?_
  constructor
  · rintro (⟨e, rfl, h⟩ | ⟨first, second, ids, rfl, hfirst, hsecond⟩)
    · exact .failed (concludes_accessibleIds_iff.1 h)
    · have hlisted := concludes_accessibleIds_iff.1 hfirst
      cases ids with
      | nil =>
        obtain ⟨rfl, rfl⟩ := Concludes.ofPure hsecond
        rw [List.append_nil]
        exact .none hlisted
      | cons id rest =>
        obtain ⟨o, hadopted, rfl⟩ := Concludes.map_iff.1 hsecond
        exact .some hlisted (concludes_adopt_iff.1 hadopted)
  · intro h
    cases h with
    | failed h => exact Or.inl ⟨_, rfl, concludes_accessibleIds_iff.2 h⟩
    | none h =>
      exact Or.inr ⟨record, [], [], (List.append_nil _).symm, concludes_accessibleIds_iff.2 h,
        Concludes.pure_iff.2 ⟨rfl, rfl⟩⟩
    | some h hadopted =>
      exact Or.inr ⟨_, _, _, rfl, concludes_accessibleIds_iff.2 h,
        Concludes.map_iff.2 ⟨_, concludes_adopt_iff.2 hadopted, rfl⟩⟩

/-- What a page is told: the handle, or null. -/
def told : Option Handle → Argument Handle
  | some h => .handle h
  | none => .value .null

/-- What a page is told that asks for the first node under a root, when such a selector was read. -/
inductive Told (root : Handle) : Except Error Json → List (Instant P) → Except Error (Argument Handle) → Prop
  | unread (e : Error) : Told root (.error e) [] (.error e)
  | mistyped {doc : Json} (h : doc.string? = none) :
      Told root (.ok doc) [] (.error (.invalidSelector ("Expected a string selector, got " ++ doc.compact)))
  | found {selector : String} {record : List (Instant P)} {o : Except Error (Option Handle)}
      (h : FirstNode root selector record o) : Told root (.ok (.string selector)) record (o.map told)

theorem concludes_tell_iff {root : Handle} {selector : String} {f : Option Handle → side.Action (Argument Handle)}
    (hf : ∀ found, f found = pure (told found)) {record : List (Instant P)} {r : Except Error (Argument Handle)} :
    Concludes P patience (Wayfind.Query.accessibleFirst (realm patience) root selector >>= f) record r ↔
      Told root (.ok (.string selector)) record r := by
  obtain rfl : f = fun found => pure (told found) := funext hf
  refine Concludes.map_iff.trans ?_
  constructor
  · rintro ⟨o, h, rfl⟩
    exact .found (concludes_accessibleFirst_iff.1 h)
  · intro h
    cases h with
    | mistyped h => exact absurd h nofun
    | found h => exact ⟨_, concludes_accessibleFirst_iff.2 h, rfl⟩

theorem concludes_answerHost_iff {root sel : Handle} {others : List Handle} {record : List (Instant P)}
    {r : Except Error (Argument Handle)} :
    Concludes P patience (Wayfind.Query.answerHost (realm patience) .aria (root :: sel :: others)) record r ↔
      ∃ before after o, record = before ++ after ∧ Concludes P patience sel.jsonValue before o ∧
        Told root o after r := by
  refine Concludes.andThen_iff.trans ?_
  constructor
  · rintro (⟨e, rfl, h⟩ | ⟨before, after, doc, rfl, hbefore, hafter⟩)
    · exact ⟨record, [], _, (List.append_nil _).symm, h, .unread e⟩
    · refine ⟨before, after, _, rfl, hbefore, ?_⟩
      cases doc with
      | string selector => exact (concludes_tell_iff (by rintro (_ | _) <;> rfl)).1 hafter
      | _ =>
        obtain ⟨rfl, rfl⟩ := Concludes.ofThrow hafter
        exact .mistyped rfl
  · rintro ⟨before, after, o, rfl, hbefore, htold⟩
    cases o with
    | error e =>
      cases htold
      rw [List.append_nil]
      exact Or.inl ⟨e, rfl, hbefore⟩
    | ok doc =>
      refine Or.inr ⟨before, after, doc, rfl, hbefore, ?_⟩
      cases doc with
      | string selector => exact (concludes_tell_iff (by rintro (_ | _) <;> rfl)).2 htold
      | _ =>
        cases htold
        exact Concludes.throw_iff.2 ⟨rfl, rfl⟩

/-! ### Every node -/

/-- What was pulled out of a query for every match: what each pull asked, and the match, the error in its
place, or nothing at the end. -/
inductive Drawn (patience : Nat) :
    Matches side → List (List (Instant P) × Option (Except Error Handle)) → Matches side → Prop
  | nil (m : Matches side) : Drawn patience m [] m
  | cons {m next left : Matches side} {record : List (Instant P)} {o : Option (Except Error Handle)}
      {pulls : List (List (Instant P) × Option (Except Error Handle))}
      (h : Ends (backend P patience) (m.next (realm patience) patience) record (o, next))
      (hrest : Drawn patience next pulls left) : Drawn patience m ((record, o) :: pulls) left

/-- Each pull adopts the next of the document nodes, and nothing else; after the last of them there is
nothing more. -/
def Delivers (ids : List Int) (pulls : List (List (Instant P) × Option (Except Error Handle))) : Prop :=
  ∀ i (hi : i < pulls.length), match ids[i]? with
    | some id => ∃ o, pulls[i].2 = some o ∧ Adopted id pulls[i].1 o
    | none => pulls[i] = ([], none)

/-- What comes of pulling the nodes under a root that a selector describes. -/
inductive EveryNode (root : Handle) (selector : String) :
    List (List (Instant P) × Option (Except Error Handle)) → Prop
  | unasked : EveryNode root selector []
  | failed {record : List (Instant P)} {e : Error} {pulls : List (List (Instant P) × Option (Except Error Handle))}
      (h : Listed root selector record (.error e)) (hrest : Delivers [] pulls) :
      EveryNode root selector ((record, some (.error e)) :: pulls)
  | found {asked adopted : List (Instant P)} {ids : List Int} {o : Option (Except Error Handle)}
      {pulls : List (List (Instant P) × Option (Except Error Handle))}
      (h : Listed root selector asked (.ok ids)) (hpulls : Delivers ids ((adopted, o) :: pulls)) :
      EveryNode root selector ((asked ++ adopted, o) :: pulls)

theorem delivers_cons {ids : List Int} {record : List (Instant P)} {o : Option (Except Error Handle)}
    {pulls : List (List (Instant P) × Option (Except Error Handle))} :
    Delivers ids ((record, o) :: pulls) ↔
      (match ids with
        | id :: _ => ∃ r, o = some r ∧ Adopted id record r
        | [] => record = [] ∧ o = none) ∧ Delivers ids.tail pulls := by
  constructor
  · intro h
    refine ⟨?_, fun i hi => ?_⟩
    · have hfirst := h 0 (Nat.zero_lt_succ _)
      cases ids with
      | nil => exact Prod.mk.inj hfirst
      | cons id rest => exact hfirst
    · have hnext := h (i + 1) (Nat.succ_lt_succ hi)
      cases ids with
      | nil => exact hnext
      | cons id rest => exact hnext
  · rintro ⟨hfirst, hrest⟩ i hi
    cases i with
    | zero =>
      cases ids with
      | nil => exact Prod.ext hfirst.1 hfirst.2
      | cons id rest => exact hfirst
    | succ i =>
      have hnext := hrest i (Nat.lt_of_succ_lt_succ hi)
      cases ids with
      | nil => exact hnext
      | cons id rest => exact hnext

/-- The nodes that are left of a query. -/
inductive Remains : List Int → Matches side → Prop
  | nodes (ids : List Int) : Remains ids (.nodes ids)
  | nothing : Remains [] .nothing

/-- A pull takes the first of the nodes that are left. -/
theorem ends_next_iff {ids : List Int} {m : Matches side} (hm : Remains ids m) {record : List (Instant P)}
    {o : Option (Except Error Handle)} {left : Matches side} :
    Ends (backend P patience) (m.next (realm patience) patience) record (o, left) ↔
      match ids with
      | id :: rest => (∃ r, o = some r ∧ Adopted id record r) ∧ left = .nodes rest
      | [] => (record = [] ∧ o = none) ∧ left = .nothing := by
  have hend : Ends (backend P patience) (pure (none, .nothing) : side.Task (Matches.Step side)) record (o, left) ↔
      (record = [] ∧ o = none) ∧ left = .nothing := by
    constructor
    · intro h
      obtain ⟨rfl, hsame⟩ := Activity.ends_done h
      obtain ⟨rfl, rfl⟩ := Prod.mk.inj hsame
      exact ⟨⟨rfl, rfl⟩, rfl⟩
    · rintro ⟨⟨rfl, rfl⟩, rfl⟩
      exact .stays _
  cases hm with
  | nothing => exact hend
  | nodes ids =>
    cases ids with
    | nil => exact hend
    | cons id rest =>
      refine Activity.ends_bind_iff.trans ?_
      constructor
      · rintro ⟨first, second, r, rfl, hfirst, hsecond⟩
        obtain ⟨rfl, hsame⟩ := Activity.ends_done hsecond
        obtain ⟨rfl, rfl⟩ := Prod.mk.inj hsame
        rw [List.append_nil]
        exact ⟨⟨r, rfl, concludes_adopt_iff.1 hfirst⟩, rfl⟩
      · rintro ⟨⟨r, rfl, hadopted⟩, rfl⟩
        exact ⟨record, [], r, (List.append_nil _).symm, concludes_adopt_iff.2 hadopted, .stays _⟩

/-- Pull after pull, the nodes that are left are adopted one by one. -/
theorem drawn_iff {ids : List Int} {m : Matches side} (hm : Remains ids m)
    {pulls : List (List (Instant P) × Option (Except Error Handle))} :
    (∃ left, Drawn patience m pulls left) ↔ Delivers ids pulls := by
  induction pulls generalizing ids m with
  | nil => exact ⟨fun _ i hi => absurd hi (Nat.not_lt_zero i), fun _ => ⟨m, .nil m⟩⟩
  | cons pull pulls ih =>
    obtain ⟨record, o⟩ := pull
    rw [delivers_cons]
    constructor
    · rintro ⟨left, h⟩
      cases h with
      | cons h hrest =>
        have hnext := (ends_next_iff hm).1 h
        cases ids with
        | nil =>
          obtain ⟨hfirst, rfl⟩ := hnext
          exact ⟨hfirst, (ih .nothing).1 ⟨left, hrest⟩⟩
        | cons id rest =>
          obtain ⟨hfirst, rfl⟩ := hnext
          exact ⟨hfirst, (ih (.nodes rest)).1 ⟨left, hrest⟩⟩
    · rintro ⟨hfirst, hrest⟩
      cases ids with
      | nil =>
        obtain ⟨left, hleft⟩ := (ih .nothing).2 hrest
        exact ⟨left, .cons ((ends_next_iff hm).2 ⟨hfirst, rfl⟩) hleft⟩
      | cons id rest =>
        obtain ⟨left, hleft⟩ := (ih (.nodes rest)).2 hrest
        exact ⟨left, .cons ((ends_next_iff hm).2 ⟨hfirst, rfl⟩) hleft⟩

theorem drawn_every_iff {root : Handle} {selector : String}
    {pulls : List (List (Instant P) × Option (Except Error Handle))} :
    (∃ left, Drawn patience (Handler.aria.every root selector) pulls left) ↔ EveryNode root selector pulls := by
  cases pulls with
  | nil => exact ⟨fun _ => .unasked, fun _ => ⟨_, .nil _⟩⟩
  | cons pull pulls =>
    obtain ⟨record, o⟩ := pull
    constructor
    · rintro ⟨left, h⟩
      cases h with
      | cons h hrest =>
        obtain ⟨asked, adopted, ids, rfl, hasked, hadopted⟩ := Activity.ends_bind h
        have hlisted := concludes_accessibleIds_iff.1 hasked
        cases ids with
        | error e =>
          obtain ⟨rfl, hsame⟩ := Activity.ends_done hadopted
          obtain ⟨rfl, rfl⟩ := Prod.mk.inj hsame
          rw [List.append_nil]
          exact .failed hlisted ((drawn_iff .nothing).1 ⟨left, hrest⟩)
        | ok ids =>
          exact .found hlisted ((drawn_iff (.nodes ids)).1 ⟨left, .cons hadopted hrest⟩)
    · intro h
      cases h with
      | failed h hrest =>
        obtain ⟨left, hleft⟩ : ∃ left, Drawn patience .nothing pulls left := (drawn_iff .nothing).2 hrest
        exact ⟨left, .cons (Activity.ends_bind_iff.2 ⟨record, [], _, (List.append_nil _).symm,
          concludes_accessibleIds_iff.2 h, .stays _⟩) hleft⟩
      | @found asked adopted ids _ _ h hpulls =>
        obtain ⟨left, hleft⟩ : ∃ left, Drawn patience (.nodes ids) ((adopted, o) :: pulls) left :=
          (drawn_iff (.nodes ids)).2 hpulls
        cases hleft with
        | cons hadopted hrest =>
          exact ⟨left, .cons (Activity.ends_bind_iff.2 ⟨asked, adopted, _, rfl,
            concludes_accessibleIds_iff.2 h, hadopted⟩) hrest⟩

/-- The first pull out of a query, as what comes of asking for the first node. -/
def pullOf : Except Error (Option Handle) → Option (Except Error Handle)
  | .ok (some h) => some (.ok h)
  | .ok none => none
  | .error e => some (.error e)

/-- The first pull goes as a query for the first node does. -/
theorem every_first_iff {root : Handle} {selector : String} {record : List (Instant P)}
    {o : Option (Except Error Handle)} :
    EveryNode root selector [(record, o)] ↔ ∃ r, FirstNode root selector record r ∧ o = pullOf r := by
  constructor
  · intro h
    cases h with
    | failed h _ => exact ⟨_, .failed h, rfl⟩
    | @found asked adopted ids _ _ h hpulls =>
      obtain ⟨hfirst, -⟩ := delivers_cons.1 hpulls
      cases ids with
      | nil =>
        obtain ⟨rfl, rfl⟩ := hfirst
        rw [List.append_nil]
        exact ⟨_, .none h, rfl⟩
      | cons id rest =>
        obtain ⟨r, rfl, hadopted⟩ := hfirst
        refine ⟨_, .some h hadopted, ?_⟩
        cases r <;> rfl
  · rintro ⟨r, h, rfl⟩
    cases h with
    | failed h => exact .failed h fun i hi => absurd hi (Nat.not_lt_zero i)
    | none h =>
      rw [← List.append_nil record]
      exact .found h (delivers_cons.2 ⟨⟨rfl, rfl⟩, fun i hi => absurd hi (Nat.not_lt_zero i)⟩)
    | @some first second id rest o h hadopted =>
      refine .found h (delivers_cons.2 ⟨⟨o, ?_, hadopted⟩, fun i hi => absurd hi (Nat.not_lt_zero i)⟩)
      cases o <;> rfl

/-! ### Nobody is kept from the end -/

theorem asks_adoptNext (ids : List Int) :
    Asks Activity.Request.isPatient (Matches.adoptNext (realm patience) ids) := by
  cases ids with
  | nil => trivial
  | cons id rest => exact (asks_adopt mild_patient id).bind fun _ => trivial

theorem Remains.asks_next {ids : List Int} {m : Matches side} (hm : Remains ids m) :
    Asks Activity.Request.isPatient (m.next (realm patience) patience) := by
  cases hm with
  | nodes ids => exact asks_adoptNext ids
  | nothing => trivial

theorem Remains.pulled {ids : List Int} {m left : Matches side} (hm : Remains ids m)
    {pulls : List (List (Instant P) × Option (Except Error Handle))} (h : Drawn patience m pulls left) :
    ∃ rest, Remains rest left := by
  induction h generalizing ids with
  | nil m => exact ⟨ids, hm⟩
  | cons h _ ih =>
    have hnext := (ends_next_iff hm).1 h
    cases ids with
    | nil =>
      obtain ⟨-, rfl⟩ := hnext
      exact ih .nothing
    | cons id rest =>
      obtain ⟨-, rfl⟩ := hnext
      exact ih (.nodes rest)

/-- Whatever was pulled out of a query, the next pull waits for nothing but time. -/
theorem asks_next_every {root : Handle} {selector : String} {left : Matches side}
    {pulls : List (List (Instant P) × Option (Except Error Handle))}
    (h : Drawn patience (Handler.aria.every root selector) pulls left) :
    Asks Activity.Request.isPatient (left.next (realm patience) patience) := by
  cases h with
  | nil =>
    refine (asks_accessibleIds mild_patient root selector).bind fun o => ?_
    cases o with
    | ok ids => exact asks_adoptNext ids
    | error e => trivial
  | cons h hrest =>
    obtain ⟨asked, adopted, o, -, -, hadopted⟩ := Activity.ends_bind h
    cases o with
    | error e =>
      obtain ⟨-, hsame⟩ := Activity.ends_done hadopted
      obtain ⟨-, rfl⟩ := Prod.mk.inj hsame
      obtain ⟨rest, hremains⟩ := Remains.nothing.pulled hrest
      exact hremains.asks_next
    | ok ids =>
      obtain ⟨rest, hremains⟩ := (Remains.nodes ids).pulled (.cons hadopted hrest)
      exact hremains.asks_next

/-! ### The three ways agree -/

/-- A handle of a value that was sent as such is read without a question. -/
theorem concludes_jsonValue_iff {h : Handle} (hvalue : h.remote.objectId = none) {record : List (Instant P)}
    {r : Except Error Json} :
    Concludes P patience h.jsonValue record r ↔ record = [] ∧ r = .ok h.remote.localValue := by
  unfold Handle.jsonValue
  rw [hvalue]
  exact Concludes.pure_iff

/-- A page that hands over the text of a selector is told what the first match is. -/
theorem concludes_answerHost_text {root sel : Handle} {selector : String} (hvalue : sel.remote.objectId = none)
    (htext : sel.remote.localValue = .string selector) {others : List Handle} {record : List (Instant P)}
    {r : Except Error (Argument Handle)} :
    Concludes P patience (Wayfind.Query.answerHost (realm patience) .aria (root :: sel :: others)) record r ↔
      ∃ o, FirstNode root selector record o ∧ r = o.map told := by
  rw [concludes_answerHost_iff]
  constructor
  · rintro ⟨before, after, o, rfl, hread, htold⟩
    obtain ⟨rfl, rfl⟩ := (concludes_jsonValue_iff hvalue).1 hread
    rw [htext] at htold
    cases htold with
    | mistyped h => exact absurd h nofun
    | found h => exact ⟨_, h, rfl⟩
  · rintro ⟨o, h, rfl⟩
    exact ⟨[], record, _, rfl, (concludes_jsonValue_iff hvalue).2 ⟨rfl, htext ▸ rfl⟩, .found h⟩

/-- The three ways to ask the accessibility tree.  A query for every match gives the handles of the nodes
that count, one adopted with each pull; a query for the first match gives the handle adopted for the first
of them, if there is one, and so does the answer to a page, which reads its selector first; the first pull
goes as the query for the first match; and each of them comes to an end. -/
theorem accessible_ways_agree (w : World P) (root : Handle) (selector : String) :
    (∀ pulls, (∃ left, Drawn patience (Handler.aria.every root selector) pulls left) ↔
      EveryNode (P := P) root selector pulls) ∧
    (∀ record r, Concludes P patience (Handler.aria.first (realm patience) root selector) record r ↔
      FirstNode root selector record r) ∧
    (∀ sel others record r,
      Concludes P patience (Wayfind.Query.answerHost (realm patience) .aria (root :: sel :: others)) record r ↔
        ∃ before after o, record = before ++ after ∧ Concludes P patience sel.jsonValue before o ∧
          Told root o after r) ∧
    (∀ sel others record r, sel.remote.objectId = none → sel.remote.localValue = .string selector →
      (Concludes P patience (Wayfind.Query.answerHost (realm patience) .aria (root :: sel :: others)) record r ↔
        ∃ o, FirstNode root selector record o ∧ r = o.map told)) ∧
    (∀ record o, EveryNode (P := P) root selector [(record, o)] ↔
      ∃ r, FirstNode root selector record r ∧ o = pullOf r) ∧
    (∀ pulls left, Drawn (P := P) patience (Handler.aria.every root selector) pulls left →
      Finishes P patience (left.next (realm patience) patience)) ∧
    Finishes P patience (Handler.aria.first (realm patience) root selector).outcome ∧
    ∀ args, Finishes P patience (Wayfind.Query.answerHost (realm patience) .aria args).outcome :=
  ⟨fun _ => drawn_every_iff, fun _ _ => concludes_accessibleFirst_iff, fun _ _ _ _ => concludes_answerHost_iff,
    fun _ _ _ _ hvalue htext => concludes_answerHost_text hvalue htext, fun _ _ => every_first_iff,
    fun _ _ h => finishes_of_asks w (asks_next_every h),
    finishes_of_asks w (asks_accessibleFirst mild_patient root selector),
    fun args => finishes_of_asks w (asks_answerHost mild_patient .aria args)⟩

/-! ### A page with one node to adopt -/

/-- An ignored node, a static text, a button without a document node, and two that count. -/
def buttonTree : Json := .object [("nodes", .array [
  .object [("nodeId", .string "1"), ("ignored", .bool true), ("backendDOMNodeId", .nat 3)],
  .object [("nodeId", .string "2"), ("role", .object [("value", .string "StaticText")]),
    ("backendDOMNodeId", .nat 4)],
  .object [("nodeId", .string "3"), ("role", .object [("value", .string "button")])],
  .object [("nodeId", .string "4"), ("role", .object [("value", .string "button")]),
    ("backendDOMNodeId", .nat 5)],
  .object [("nodeId", .string "5"), ("backendDOMNodeId", .nat 6)]])]

/-- A page with this tree, of whose nodes only one can be adopted. -/
def buttonPage : Peer where
  State := Unit
  command method doc state :=
    (⟨0, if method = "Accessibility.queryAXTree" then .ok buttonTree
      else match doc.member "backendNodeId" with
        | .number (.integer 5) =>
          .ok (.object [("object", .object [("type", .string "object"), ("objectId", .string "node-5")])])
        | _ => .error (.protocol "No node with given id found")⟩, [], state)
  listen _ := .ok ()
  close state := (.ok (), state)

theorem accessible_ways_agree_button :
    let root : Handle := ⟨0, ⟨"object", some "node", some "doc", none, none, none⟩⟩
    let name : Handle := ⟨1, ⟨"string", none, none, some (.string "Save"), none, none⟩⟩
    let button : Handle := ⟨0, ⟨"object", none, some "node-5", none, none, none⟩⟩
    let refusal : Error := .protocol "No node with given id found"
    (∃ record, Concludes buttonPage 1 (Wayfind.Query.answerHost (realm 1) .aria [root, name]) record
      (.ok (.handle button))) ∧
    (∃ record, Concludes buttonPage 1 (Handler.aria.first (realm 1) root "Save") record (.ok (some button))) ∧
    ∃ first second third left, Drawn (P := buttonPage) 1 (Handler.aria.every root "Save")
      [(first, some (.ok button)), (second, some (.error refusal)), (third, none)] left := by
  intro root name button refusal
  let w : World buttonPage := World.init () ""
  have hname : Accessible.ofText "Save" = .ok ⟨some "Save", none⟩ :=
    Accessible.Sentence.ofText_of_known (s := ⟨"Save".toList, []⟩) ⟨by decide, nofun⟩ nofun (by decide) nofun
  obtain ⟨nodes, hread, hcounted⟩ : ∃ nodes, AccessibleNode.listReader.ofJson? buttonTree = some nodes ∧
      counted nodes = [5, 6] := ⟨_, rfl, rfl⟩
  have hlisted : Listed root "Save" [⟨w, .command "Accessibility.queryAXTree" (treeParams "doc" ⟨some "Save", none⟩)⟩]
      (.ok [5, 6]) := hcounted ▸ .listed hname rfl (.replied rfl) hread
  have hbutton : Adopted 5 [⟨w, .command "DOM.resolveNode" (params [("backendNodeId", .int 5)])⟩,
      ⟨w, .wrap button.remote⟩] (.ok button) := .adopted (.replied rfl) rfl w
  have hrefused : Adopted 6 [⟨w, .command "DOM.resolveNode" (params [("backendNodeId", .int 6)])⟩]
      (.error refusal) := .refused (.refused rfl (by decide))
  have hfirst : FirstNode root "Save" _ (.ok (some button)) := .some hlisted hbutton
  have hevery : EveryNode (P := buttonPage) root "Save" [(_, some (.ok button)), (_, some (.error refusal)), ([], none)] :=
    .found hlisted (delivers_cons.2 ⟨⟨_, rfl, hbutton⟩, delivers_cons.2 ⟨⟨_, rfl, hrefused⟩,
      delivers_cons.2 ⟨⟨rfl, rfl⟩, fun i hi => absurd hi (Nat.not_lt_zero i)⟩⟩⟩)
  obtain ⟨hpulls, hone, -, htext, -⟩ := @accessible_ways_agree _ 1 w root "Save"
  obtain ⟨left, hleft⟩ := (hpulls _).2 hevery
  exact ⟨⟨_, (htext name [] _ _ rfl rfl).2 ⟨_, hfirst, rfl⟩⟩, ⟨_, (hone _ _).2 hfirst⟩, _, _, _, left, hleft⟩

end Wayfind.Remote
