/-
Every match of a query, once.

Whoever pulls matches out of a pager gets its elements in their order, up to as many as are
wanted, and the end after the last one.  A batch is fetched only when nothing that was
fetched is left, so no fewer batches would do.  Whoever gives the query up releases what was
fetched and not taken, and the iterator.
-/
import Wayfind.Proofs.Remote.Paging
import Mathlib.Order.Bounds.Defs

namespace Wayfind.Remote

open Activity (Prompt prompt_bind prompt_protect Timeline Run)
open PageSide (Action)
open Protocol (RemoteObject Property)
open Wayfind.Query (batchSize Matches Handler)

variable {P : Peer} {patience : Nat} {x y : Recorded P}

/-! ### What is wanted -/

/-- The elements among items. -/
def elements (items : List RemoteObject) : List RemoteObject := items.filter RemoteObject.isNode

/-- The elements that are wanted: the first so many, or all. -/
def wanted (items : List RemoteObject) : Option Nat → List RemoteObject
  | some k => (elements items).take k
  | none => elements items

/-- So many batches hold as many elements as are wanted, or show the end. -/
def Enough (items : List RemoteObject) (limit : Option Nat) (b : Nat) : Prop :=
  (∃ k ∈ limit, k ≤ (elements (items.take (batchSize * b))).length) ∨ items.length < batchSize * b

instance (items : List RemoteObject) (limit : Option Nat) (b : Nat) : Decidable (Enough items limit b) :=
  inferInstanceAs (Decidable (_ ∨ _))

variable {items : List RemoteObject} {limit : Option Nat}

theorem elements_append (first second : List RemoteObject) :
    elements (first ++ second) = elements first ++ elements second :=
  List.filter_append first second

/-- The elements of the first items are the first elements. -/
theorem elements_take (items : List RemoteObject) (n : Nat) :
    elements (items.take n) <+: elements items := by
  refine ⟨elements (items.drop n), ?_⟩
  rw [← elements_append, List.take_append_drop]

/-- The elements of one more batch. -/
theorem elements_batch (items : List RemoteObject) (b : Nat) :
    elements (items.take (batchSize * (b + 1))) =
      elements (items.take (batchSize * b)) ++ elements ((items.drop (batchSize * b)).take batchSize) := by
  rw [Nat.mul_succ, List.take_add, elements_append]

/-! ### An iteration under way -/

/-- The handles that what is left of a query holds. -/
def held : Matches side → List Handle
  | .iterating iterator fetched _ => iterator :: fetched
  | _ => []

theorem duties_eq (m : Matches side) :
    m.duties = ((held m).map Job.release).map (Activity.Duty.fork (S := side.signature)) := by
  cases m with
  | iterating iterator fetched ended => exact List.map_map.symm
  | _ => rfl

/-- So many batches were fetched, and each because it was needed; what was taken and what is left of
what was fetched are their elements. -/
structure Going (g : Pager P items) (limit : Option Nat) (rest : Multiset Charge) (x : Recorded P)
    (taken : List Handle) (iterator : Handle) (fetched : List Handle) (ended : Bool) (b : Nat) : Prop where
  shows : ∃ id array, iterator.remote.objectId = some id ∧
    g.Shows (.opened id array (items.drop (batchSize * b))) b x
  owes : Owes x (charges (iterator :: fetched) + (charges taken + rest))
  split : (taken ++ fetched).map Handle.remote = elements (items.take (batchSize * b))
  ended : ended = decide (items.length < batchSize * b)
  least : ∀ j < b, ¬ Enough items limit j

/-- The matches that are wanted were taken, with no more batches than that needs. -/
structure Ended (limit : Option Nat) (items : List RemoteObject) (rest : Multiset Charge)
    (taken : List Handle) (m : Matches side) (x : Recorded P) : Prop where
  owes : Owes x (charges (held m) + (charges taken + rest))
  taken : taken.map Handle.remote = wanted items limit
  least : IsLeast {b | Enough items limit b} (batches x.2)

variable {g : Pager P items} {rest : Multiset Charge} {taken fetched : List Handle} {iterator : Handle}
  {ended : Bool} {b : Nat}

/-- A batch is needed while nothing of the last one is left. -/
theorem Going.not_enough (h : Going g limit rest x taken iterator [] false b)
    (hwant : ∀ k, limit = some k → taken.length < k) : ¬ Enough items limit b := by
  rintro (⟨k, hk, hle⟩ | hend)
  · rw [← h.split, List.length_map, List.append_nil] at hle
    exact absurd (hwant k hk) (Nat.not_lt.mpr hle)
  · exact absurd hend (by simpa using h.ended)

/-- One more batch, which is needed. -/
theorem Going.fetch (h : Going g limit rest x taken iterator [] false b)
    (hwant : ∀ k, limit = some k → taken.length < k) :
    Succeeds P patience x (Matches.fetchBatch (realm patience) iterator) fun batch y =>
      Going g limit rest y taken iterator batch.1 batch.2 (b + 1) := by
  obtain ⟨id, array, hid, hshows⟩ := h.shows
  refine (Pager.succeeds_fetchBatch hshows h.owes hid (by rw [charges_cons]; simp)).mono ?_
  rintro r y ⟨batch, rfl, ⟨array', hbatch, hended, hy⟩, howes⟩
  refine ⟨batch, rfl, ⟨id, array', hid, ?_⟩, ?_, ?_, ?_, ?_⟩
  · rw [List.drop_drop, ← Nat.mul_succ] at hy
    exact hy
  · have hsum (fetched : List Handle) : charges (iterator :: fetched) + (charges taken + rest) =
        charges fetched + (charges [iterator] + (charges taken + rest)) := by
      rw [charges_cons, charges_cons, charges_nil]
      abel
    exact (congrArg (Owes y) (hsum batch.1)).mpr howes
  · have htaken := h.split
    rw [List.append_nil] at htaken
    rw [elements_batch, ← htaken]
    exact List.map_append.trans (congrArg (taken.map Handle.remote ++ ·) hbatch)
  · have hleft : ¬ items.length < batchSize * b := by simpa using h.ended
    rw [hended, List.length_drop]
    exact decide_eq_decide.mpr (by rw [Nat.mul_succ]; omega)
  · intro j hj
    rcases Nat.lt_succ_iff_lt_or_eq.mp hj with hj | rfl
    · exact h.least j hj
    · exact h.not_enough hwant

/-- What was taken, when another match is taken. -/
theorem Going.yield {h : Handle} (hx : Going g limit rest x taken iterator (h :: fetched) ended b) :
    Going g limit rest x (taken ++ [h]) iterator fetched ended b := by
  refine ⟨hx.shows, ?_, ?_, hx.ended, hx.least⟩
  · have hsum : charges (iterator :: fetched) + (charges (taken ++ [h]) + rest) =
        charges (iterator :: h :: fetched) + (charges taken + rest) := by
      simp only [charges_cons, charges_append, charges_nil]
      abel
    exact (congrArg (Owes x) hsum).mpr hx.owes
  · rw [List.append_assoc]
    exact hx.split

/-- What comes of asking for a match. -/
inductive Pulled (g : Pager P items) (limit : Option Nat) (rest : Multiset Charge) (taken : List Handle) :
    Matches.Step side → Recorded P → Prop where
  | found {h iterator : Handle} {fetched : List Handle} {ended : Bool} {b : Nat} {y : Recorded P}
      (going : Going g limit rest y (taken ++ [h]) iterator fetched ended b) :
      Pulled g limit rest taken (some (.ok h), .iterating iterator fetched ended) y
  | over {y : Recorded P} (ended : Ended limit items rest taken .nothing y) :
      Pulled g limit rest taken (none, .nothing) y

/-- The end is where nothing is left of a batch that was short. -/
theorem Going.over (h : Going g limit rest x taken iterator [] true b)
    (hwant : ∀ k, limit = some k → taken.length < k) (howes : Owes y (charges taken + rest))
    (hbatches : batches y.2 = b) : Ended limit items rest taken .nothing y := by
  have hend : items.length < batchSize * b := by simpa using h.ended.symm
  have hall : taken.map Handle.remote = elements items := by
    have hsplit := h.split
    rwa [List.append_nil, List.take_of_length_le (Nat.le_of_lt hend)] at hsplit
  refine ⟨?_, ?_, ?_⟩
  · show Owes y (0 + _)
    rwa [zero_add]
  · rw [hall]
    cases limit with
    | none => rfl
    | some k =>
      refine (List.take_of_length_le ?_).symm
      rw [← hall, List.length_map]
      exact Nat.le_of_lt (hwant k rfl)
  · rw [hbatches]
    exact ⟨Or.inr hend, fun j hj => Nat.not_lt.mp fun hlt => h.least j hlt hj⟩

/-- At the end the iterator is released. -/
theorem prompt_pull_ended (fuel : Nat) (hx : Going g limit rest x taken iterator [] true b)
    (hwant : ∀ k, limit = some k → taken.length < k) :
    Prompt (recording P patience) (fun _ => True) (Pulled g limit rest taken)
      (Matches.pull (realm patience) iterator fuel [] true) x := by
  obtain ⟨id, array, hid, hshows⟩ := hx.shows
  have howes : Owes x (iterator.charge + (charges taken + rest)) := by
    have howes := hx.owes
    rwa [charges_cons, charges_nil, add_zero] at howes
  have hrelease : Prompt (recording P patience) (fun _ => True) (Pulled g limit rest taken)
      (Activity.bind ((realm patience).release iterator) fun _ => .done (none, .nothing)) x := by
    refine prompt_bind.mpr (prompt_bind.mpr ?_)
    refine (Pager.owing (Pager.succeeds_dispose hshows) (conserves_dispose g.quiet iterator) howes).mono ?_
    rintro r y ⟨_, rfl, hy, howes⟩
    rw [zero_add] at howes
    exact .over (hx.over hwant howes hy.asked)
  cases fuel <;> exact hrelease

/-- Asked for a match, an iterator gives one that was fetched, or fetches batches until there is one
or the end is seen. -/
theorem prompt_pull {fuel : Nat} (hfuel : items.length < batchSize * (b + fuel))
    (hx : Going g limit rest x taken iterator fetched ended b)
    (hwant : ∀ k, limit = some k → taken.length < k) :
    Prompt (recording P patience) (fun _ => True) (Pulled g limit rest taken)
      (Matches.pull (realm patience) iterator fuel fetched ended) x := by
  induction fuel generalizing x fetched ended b with
  | zero =>
    rcases fetched with _ | ⟨h, fetched⟩
    · cases ended with
      | true => exact prompt_pull_ended 0 hx hwant
      | false => exact absurd hfuel (by simpa using hx.ended)
    · exact .found hx.yield
  | succ fuel ih =>
    rcases fetched with _ | ⟨h, fetched⟩
    · cases ended with
      | true => exact prompt_pull_ended (fuel + 1) hx hwant
      | false =>
        refine prompt_bind.mpr ((prompt_protect _).mpr ((hx.fetch hwant).mono ?_))
        rintro r y ⟨batch, rfl, hy⟩
        exact ih (by rwa [Nat.add_right_comm, Nat.add_assoc]) hy
    · exact .found hx.yield

/-! ### Taking matches -/

/-- A query between two matches. -/
inductive Stands (g : Pager P items) (limit : Option Nat) (rest : Multiset Charge) (x : Recorded P) :
    List Handle → Matches side → Prop where
  /-- Nothing was asked yet. -/
  | unopened {root : Handle} {query : Wayfind.Query.Prepared} (shows : g.Shows .closed 0 x)
      (owes : Owes x rest) (live : root.id ∈ marks rest) : Stands g limit rest x [] (.unopened root query)
  | going {taken : List Handle} {iterator : Handle} {fetched : List Handle} {ended : Bool} {b : Nat}
      (going : Going g limit rest x taken iterator fetched ended b) :
      Stands g limit rest x taken (.iterating iterator fetched ended)

variable {m : Matches side}

theorem Stands.owes (h : Stands g limit rest x taken m) :
    Owes x (charges (held m) + (charges taken + rest)) := by
  cases h with
  | unopened shows owes live => simpa [held] using owes
  | going going => exact going.owes

/-- What was taken are first elements. -/
theorem Stands.isPrefix (h : Stands g limit rest x taken m) :
    taken.map Handle.remote <+: elements items := by
  cases h with
  | unopened shows owes live => exact List.nil_prefix
  | @going _ iterator fetched ended b going =>
    have hsplit : taken.map Handle.remote <+: elements (items.take (batchSize * b)) :=
      ⟨fetched.map Handle.remote, by rw [← going.split, List.map_append]⟩
    exact hsplit.trans (elements_take items _)

/-- When as many were taken as are wanted, no more is asked. -/
theorem Stands.enough (h : Stands g (some taken.length) rest x taken m) :
    Ended (some taken.length) items rest taken m x := by
  refine ⟨h.owes, ?_, ?_⟩
  · rw [wanted, ← List.length_map (f := Handle.remote)]
    exact List.prefix_iff_eq_take.mp h.isPrefix
  · cases h with
    | unopened shows owes live =>
      rw [shows.asked]
      exact ⟨Or.inl ⟨0, rfl, Nat.zero_le _⟩, fun _ _ => Nat.zero_le _⟩
    | going going =>
      obtain ⟨id, array, hid, hshows⟩ := going.shows
      rw [hshows.asked]
      refine ⟨Or.inl ⟨_, rfl, ?_⟩, fun j hj => Nat.not_lt.mp fun hlt => going.least j hlt hj⟩
      rw [← going.split, List.length_map, List.length_append]
      exact Nat.le_add_right _ _

/-- Asks for the next match. -/
theorem Stands.next (hpatience : items.length < batchSize * patience)
    (h : Stands g limit rest x taken m) (hwant : ∀ k, limit = some k → taken.length < k) :
    Prompt (recording P patience) (fun _ => True) (Pulled g limit rest taken)
      (Matches.next (realm patience) patience m) x := by
  cases h with
  | @unopened root query shows owes live =>
    refine prompt_bind.mpr ((Pager.succeeds_openIterator shows owes live).mono ?_)
    rintro r y ⟨made, rfl, ⟨id, hid, hy⟩, howes⟩
    have hgoing : Going g limit rest y [] made [] false 0 := by
      have hsum (h : Handle) : charges [h] + (charges [] + rest) = h.charge + rest := by simp
      exact ⟨⟨id, none, hid, hy⟩, (congrArg (Owes y) (hsum made)).mpr howes, rfl, by simp,
        fun j hj => absurd hj (Nat.not_lt_zero j)⟩
    exact prompt_pull (by rwa [Nat.zero_add]) hgoing hwant
  | going going =>
    exact prompt_pull (hpatience.trans_le (Nat.mul_le_mul_left _ (Nat.le_add_left _ _))) going hwant

/-- What a consumer is given: the matches it takes, the error after them, and what is left. -/
abbrev Out : Type := List Handle × Option Error × Matches side

/-- Takes as many matches as are wanted. -/
theorem prompt_take (hpatience : items.length < batchSize * patience) {fuel : Nat}
    (hfuel : (elements items).length < taken.length + fuel) (h : Stands g limit rest x taken m)
    (hle : ∀ k, limit = some k → taken.length ≤ k) :
    Prompt (recording P patience) (fun _ => True)
      (fun (out : Out) y =>
        out.2.1 = none ∧ Ended limit items rest (taken ++ out.1) out.2.2 y)
      (Matches.take (realm patience) patience (limit.map (· - taken.length)) fuel m) x := by
  induction fuel generalizing x taken m with
  | zero =>
    have hlength := h.isPrefix.length_le
    rw [List.length_map] at hlength
    omega
  | succ fuel ih =>
    unfold Matches.take
    by_cases hstop : limit.map (· - taken.length) = some 0
    · rw [if_pos hstop]
      obtain ⟨k, rfl, hk⟩ := Option.map_eq_some_iff.mp hstop
      obtain rfl : k = taken.length := Nat.le_antisymm (Nat.sub_eq_zero_iff_le.mp hk) (hle k rfl)
      have henough : Ended (some taken.length) items rest (taken ++ []) m x := by
        rw [List.append_nil]
        exact h.enough
      exact ⟨rfl, henough⟩
    · rw [if_neg hstop]
      have hwant : ∀ k, limit = some k → taken.length < k := by
        rintro k rfl
        exact Nat.lt_of_not_le fun hkle => hstop (congrArg some (Nat.sub_eq_zero_of_le hkle))
      refine prompt_bind.mpr ((h.next hpatience hwant).mono ?_)
      rintro step y (@⟨h, iterator, fetched, ended, b, _, hgoing⟩ | @⟨_, hended⟩)
      · have hlimit : (limit.map (· - taken.length)).map (· - 1) =
            limit.map (· - (taken ++ [h]).length) := by
          rw [Option.map_map, List.length_append]
          rfl
        have hmore := ih (by rw [List.length_append, List.length_singleton]; omega) (.going hgoing) fun k hk => by
          rw [List.length_append]
          exact hwant k hk
        rw [← hlimit] at hmore
        refine prompt_bind.mpr (hmore.mono ?_)
        rintro ⟨more, failure, m⟩ z ⟨hfailure, hz⟩
        have hshift : Ended limit items rest (taken ++ h :: more) m z := by
          rwa [← List.append_cons] at hz
        exact ⟨hfailure, hshift⟩
      · have hnone : Ended limit items rest (taken ++ []) .nothing y := by rwa [List.append_nil]
        exact ⟨rfl, hnone⟩

/-! ### Giving a query up -/

/-- Takes matches, at most so many where a number is given, and gives the query up. -/
def consume (patience : Nat) (limit : Option Nat) (fuel : Nat) (m : Matches side) :
    side.Task (List Handle × Option Error) := do
  let (taken, failure, left) ← Matches.take (realm patience) patience limit fuel m
  left.abandon
  return (taken, failure)

theorem batches_release {q : Query} (hq : q.isRelease = true) : batches (x.tell q).2 = batches x.2 := by
  have hnone : Instant.asksBatch ⟨x.1, q⟩ = false := by
    cases q with
    | command method params =>
      have hmethod : method = "Runtime.releaseObject" := by simpa [Query.isRelease] using hq
      simp [Instant.asksBatch, hmethod]
    | _ => rfl
  rw [batches, Recorded.tell, List.countP_append, List.countP_singleton, hnone]
  rfl

/-- What a consumer was given and what it used for that. -/
structure Delivered (items : List RemoteObject) (limit : Option Nat) (w : World P)
    (taken : List Handle) (x : Recorded P) : Prop where
  /-- The first elements, in their order. -/
  inOrder : taken.map Handle.remote = wanted items limit
  /-- Whatever was handed over was released once, but for what was taken and the utility bundle. -/
  released : total Instant.given x.2 = total Instant.released x.2 +
    (taken.map fun h => reference h.remote).sum +
    (total Instant.kept x.2).bind fun h => reference h.remote
  /-- The handles that were made are disposed, but for those. -/
  live : liveIn x.1.ledger =
    liveIn w.ledger + (taken.map Handle.id : List Nat) + (total Instant.kept x.2).map Handle.id
  /-- No fewer batches hold what was wanted. -/
  least : IsLeast {b | Enough items limit b} (batches x.2)
  /-- Where nothing is wanted, nothing is asked. -/
  idle : limit = some 0 → x.2 = []

theorem consume_eq (limit : Option Nat) (fuel : Nat) (m : Matches side) :
    consume patience limit fuel m = Activity.bind (Matches.take (realm patience) patience limit fuel m)
      fun out => Activity.bind (Activity.fulfilThen (.done ())
        (((held out.2.2).map Job.release).map Activity.Duty.fork)) fun _ => .done (out.1, out.2.1) := by
  unfold consume
  congr 1
  funext out
  exact congrArg (fun duties => Activity.bind (Activity.fulfilThen (.done ()) duties) fun _ =>
    .done (out.1, out.2.1)) (duties_eq out.2.2)

/-- What is still to be released when a query is given up. -/
structure GivenUp (items : List RemoteObject) (limit : Option Nat) (w : World P)
    (taken : List Handle) (jobs : List (Job Handle Unit Chore)) (x : Recorded P) : Prop where
  inOrder : taken.map Handle.remote = wanted items limit
  owes : ∃ hs : List Handle, jobs = hs.map Job.release ∧ Owes x (charges hs + (charges taken + standing w))
  least : IsLeast {b | Enough items limit b} (batches x.2)
  idle : limit = some 0 → jobs = [] ∧ x.2 = []

variable {w : World P}

theorem GivenUp.turn (hP : P.Quiet True) {job : Job Handle Unit Chore} {rest : List (Job Handle Unit Chore)}
    (hx : GivenUp items limit w taken (job :: rest) x) :
    Timeline.watched ((recording P patience).start job) = [] ∧
      Prompt (recording P patience) (GivenUp items limit w taken rest)
        (fun _ y => GivenUp items limit w taken rest y) ((recording P patience).start job) x := by
  obtain ⟨_ | ⟨h, hs⟩, hjobs, howes⟩ := hx.owes
  · exact absurd hjobs (List.cons_ne_nil _ _)
  obtain ⟨rfl, rfl⟩ := List.cons.inj hjobs
  have hsome : limit ≠ some 0 := fun h0 => absurd (hx.idle h0).1 (List.cons_ne_nil _ _)
  rw [charges_cons, add_assoc] at howes
  have hafter (y : Recorded P) (howes : Owes y (charges hs + (charges taken + standing w)))
      (hbatches : batches y.2 = batches x.2) : GivenUp items limit w taken (hs.map Job.release) y :=
    ⟨hx.inOrder, ⟨hs, rfl, howes⟩, hbatches ▸ hx.least, fun h0 => absurd h0 hsome⟩
  refine ⟨rfl, prompt_bind.mpr ((prompt_dispose (K := fun y => batches y.2 = batches x.2)
    (fun y q hq hy => (batches_release hq).trans hy)
    (fun y howes hy => ⟨hP.events, fun _ _ _ _ => hafter y howes hy⟩) howes rfl).mono ?_)⟩
  exact fun _ y hy => hafter y hy.1 hy.2

/-- Matches pulled out of a pager come each once and in their order, with no batch too many, and
nothing is kept of what was not taken. -/
theorem delivered_of_pager (g : Pager P items) (w : World P) (hclosed : g.At .closed w.peer)
    (h : Handler) (hdialect : h.dialect ≠ .aria) (root : Handle) (hroot : w.isDisposed root = false)
    (selector : String) (limit : Option Nat) (patience fuel : Nat)
    (hpatience : items.length < batchSize * patience) (hfuel : (elements items).length < fuel) :
    ∃ enough taken after, after.ready = [] ∧ Delivered items limit w taken after.world ∧
      ∀ budget ≥ enough, (Timeline.init (w, [])).run (recording P patience) budget
        (consume patience limit fuel (h.every root selector)) = (some (taken, none), after) := by
  have hlive : root.id ∈ marks (standing w) := by
    rw [marks_standing, mem_liveIn]
    unfold World.isDisposed at hroot
    rcases hid : w.ledger[root.id]? with _ | disposed
    · rw [hid] at hroot
      exact absurd hroot (by simp)
    · rw [hid] at hroot
      exact congrArg some hroot
  have hstands : Stands g limit (standing w) (w, []) [] (.unopened root (h.prepare selector)) :=
    .unopened ⟨hclosed, rfl⟩ (owes_standing w) hlive
  have hevery : h.every root selector = Matches.unopened (B := side) root (h.prepare selector) :=
    if_neg hdialect
  have htake : Prompt (recording P patience) (fun _ => True)
      (fun (out : Out) y =>
        out.2.1 = none ∧ Ended limit items (standing w) out.1 out.2.2 y)
      (Matches.take (realm patience) patience limit fuel (h.every root selector)) (w, []) := by
    have htake := prompt_take hpatience (by rwa [List.length_nil, Nat.zero_add]) hstands
      fun k _ => Nat.zero_le k
    have hlimit : limit.map (· - ([] : List Handle).length) = limit := by cases limit <;> rfl
    rw [hlimit] at htake
    rw [hevery]
    exact htake
  have hidle : Prompt (recording P patience) (fun _ => True)
      (fun (out : Out) y =>
        limit = some 0 → held out.2.2 = [] ∧ y.2 = [])
      (Matches.take (realm patience) patience limit fuel (h.every root selector)) (w, []) := by
    by_cases h0 : limit = some 0
    · obtain ⟨fuel, rfl⟩ := Nat.exists_eq_add_one_of_ne_zero (Nat.ne_of_gt (Nat.zero_lt_of_lt hfuel))
      rw [h0, hevery]
      exact fun _ => ⟨rfl, rfl⟩
    · exact htake.mono fun _ _ _ h => absurd h h0
  have hturn (out : Out) (job : Job Handle Unit Chore) (rest : List (Job Handle Unit Chore)) (y : Recorded P)
      (hy : out.2.1 = none ∧ GivenUp items limit w out.1 (job :: rest) y) :
      Timeline.watched ((recording P patience).start job) = [] ∧ Prompt (recording P patience)
        (fun y => out.2.1 = none ∧ GivenUp items limit w out.1 rest y)
        (fun _ y => out.2.1 = none ∧ GivenUp items limit w out.1 rest y)
        ((recording P patience).start job) y := by
    simp only [hy.1, true_and]
    exact hy.2.turn g.quiet
  obtain ⟨enough, out, after, hready, ⟨hnone, hafter⟩, hrun⟩ := (htake.and hidle).runs
    (Timeline.init (w, []) : Timeline side.signature (recording P patience).World)
    (fun out : Out => (held out.2.2).map Job.release) (fun out : Out => (out.1, out.2.1))
    (fun out jobs y => out.2.1 = none ∧ GivenUp items limit w out.1 jobs y) rfl rfl
    (fun out y hy => ⟨hy.1.1, hy.1.2.taken, ⟨_, rfl, hy.1.2.owes⟩, hy.1.2.least, fun h0 =>
      ⟨congrArg _ (hy.2 h0).1, (hy.2 h0).2⟩⟩) hturn
  obtain ⟨hs, hjobs, howes⟩ := hafter.owes
  obtain rfl : hs = [] := List.map_eq_nil_iff.mp hjobs.symm
  refine ⟨enough, out.1, after, hready,
    ⟨hafter.inOrder, ?_, ?_, hafter.least, fun h0 => (hafter.idle h0).2⟩, fun budget hbudget => ?_⟩
  · simpa using howes.refs
  · rw [howes.live]
    simp [add_comm]
  · rw [consume_eq]
    exact (hrun budget hbudget).trans (by rw [hnone])

/-! ### A page with two batches -/

/-- A value under a reference, an element or not. -/
def good (element : Bool) (id : String) : RemoteObject :=
  ⟨"", if element then some "node" else none, some id, none, none, none⟩

/-- Three elements among values of other kinds. -/
def goods : List RemoteObject :=
  ["a", "b", "c", "d", "e", "f", "g", "h", "i", "j", "k", "l", "m", "n", "o", "p", "q", "r", "s", "t",
    "u", "v"].map fun id => good (["c", "u", "v"].contains id) id

/-- The reply that hands a reference over. -/
def handing (id : String) : Json := .object [("result", .object [("objectId", .string id)])]

/-- The reply that lists items. -/
def listing (items : List RemoteObject) : Json :=
  .object [("result", .array (items.zipIdx.map fun (r, i) => .object [
    ("name", .string (toString i)), ("enumerable", .bool true),
    ("value", .object ((r.subtype.map fun s => ("subtype", .string s)).toList ++
      (r.objectId.map fun id => ("objectId", .string id)).toList))]))]

/-- What is said in reply to a command, where the iteration over the goods has come so far, and how far
it has come then. -/
def shelfReply (method : String) (c : Cue) : Json × Cue :=
  if method = "Runtime.callFunctionOn" then
    match c with
    | .closed => (handing "iterator", .opened "iterator" none goods)
    | .opened iterator _ left => (handing "array",
      .opened iterator (some ("array", left.take batchSize)) (left.drop batchSize))
  else if method = "Runtime.getProperties" then
    match c with
    | .opened _ (some (_, batch)) _ => (listing batch, c)
    | _ => (.null, c)
  else (handing "world", c)

/-- A page that answers everything after a millisecond, and iterates over the goods. -/
def shelf : Peer where
  State := Cue
  command method _ c := (⟨1, .ok (shelfReply method c).1⟩, [], (shelfReply method c).2)
  listen _ := .ok ()
  close c := (.ok (), c)

/-- How far the iteration over the goods has come after some calls. -/
def goodsCue : Nat → Cue
  | 0 => .closed
  | 1 => .opened "iterator" none goods
  | n + 2 => .opened "iterator" (some ("array", (goods.drop (batchSize * n)).take batchSize))
    (goods.drop (batchSize * (n + 1)))

/-- Each batch of the goods is listed as it is. -/
theorem listing_goods (n : Nat) :
    ∃ properties, Property.listReader.ofJson? (listing ((goods.drop (batchSize * n)).take batchSize)) =
      some properties ∧ Handle.indexed properties =
        ((goods.drop (batchSize * n)).take batchSize).zipIdx.map Prod.swap := by
  rcases n with _ | _ | n
  · exact ⟨_, rfl, rfl⟩
  · exact ⟨_, rfl, rfl⟩
  · have hnone : goods.drop (batchSize * (n + 2)) = [] :=
      List.drop_eq_nil_of_le (by show 22 ≤ 20 * (n + 2); omega)
    rw [hnone]
    exact ⟨_, rfl, rfl⟩

/-- A reference is handed over. -/
theorem shelf_hands {method : String} {params : Json} {c c' : Cue} {id : String}
    (h : shelfReply method c = (handing id, c')) {Then : String → Cue → Prop} (hthen : Then id c') :
    shelf.Hands method params c Then := by
  refine ⟨handing id, ⟨"", none, some id, none, none, none⟩, id, ?_, rfl, rfl, ?_⟩
  · show Except.ok (shelfReply method c).1 = _
    rw [h]
  · show Then id (shelfReply method c).2
    rw [h]
    exact hthen

/-- The shelf is a pager. -/
def shelfPager : Pager shelf goods where
  At c s := s = c ∧ ∃ n, c = goodsCue n
  quiet := ⟨fun _ _ _ => rfl, fun _ _ _ _ => trivial⟩
  evaluates params hat :=
    shelf_hands ((if_neg (by decide)).trans (if_neg (by decide))) hat
  opens hat _ := by
    obtain ⟨rfl, -⟩ := hat
    have hreply : shelfReply "Runtime.callFunctionOn" .closed =
        (handing "iterator", .opened "iterator" none goods) := if_pos rfl
    exact shelf_hands hreply ⟨rfl, 1, rfl⟩
  gives {iterator array left s params} hat _ := by
    have hreply : shelfReply "Runtime.callFunctionOn" (.opened iterator array left) = (handing "array",
        .opened iterator (some ("array", left.take batchSize)) (left.drop batchSize)) := if_pos rfl
    obtain ⟨rfl, _ | _ | n, hn⟩ := hat
    · exact absurd hn nofun
    · cases hn
      exact shelf_hands hreply ⟨rfl, 2, rfl⟩
    · cases hn
      refine shelf_hands hreply ⟨rfl, n + 3, ?_⟩
      rw [List.drop_drop]
      rfl
  lists {iterator array batch left s params} hat _ := by
    have hreply : shelfReply "Runtime.getProperties" (.opened iterator (some (array, batch)) left) =
        (listing batch, .opened iterator (some (array, batch)) left) :=
      (if_neg (by decide)).trans (if_pos rfl)
    obtain ⟨rfl, _ | _ | n, hn⟩ := hat
    · exact absurd hn nofun
    · exact absurd hn nofun
    · cases hn
      obtain ⟨properties, hread, hindexed⟩ := listing_goods n
      exact ⟨_, properties, congrArg (fun r : Json × Cue => Except.ok r.1) hreply, hread,
        .of_eq hindexed, congrArg Prod.snd hreply, n + 2, rfl⟩
  releases {c s} params hat := by
    have hreply : shelfReply "Runtime.releaseObject" s = (handing "world", s) :=
      (if_neg (by decide)).trans (if_neg (by decide))
    exact ⟨_, rfl, (congrArg Prod.snd hreply).trans hat.1, hat.2⟩

/-- A world in which there is a handle of the document. -/
def shelfWorld : World shelf := { World.init Cue.closed "bundle" with ledger := #[false] }

/-- Two elements are taken out of two batches, and the third is released. -/
theorem delivered_of_shelf :
    ∃ enough taken after, Delivered goods (some 2) shelfWorld taken after.world ∧
      taken.map Handle.remote = [good true "c", good true "u"] ∧ batches after.world.2 = 2 ∧
      ∀ budget ≥ enough, (Timeline.init (shelfWorld, [])).run (recording shelf 2) budget
        (consume 2 (some 2) 4 (Handler.text.every ⟨0, good true "document"⟩ "Buy")) =
          (some (taken, none), after) := by
  obtain ⟨enough, taken, after, -, hdelivered, hrun⟩ := delivered_of_pager shelfPager shelfWorld
    ⟨rfl, 0, rfl⟩ Handler.text (by decide) ⟨0, good true "document"⟩ rfl "Buy" (some 2) 2 4 (by decide)
    (by decide)
  have hfew : ∀ b < 2, ¬ Enough goods (some 2) b := by decide
  have hleast : IsLeast {b | Enough goods (some 2) b} 2 :=
    ⟨by decide, fun b hb => Nat.le_of_not_lt fun hlt => hfew b hlt hb⟩
  exact ⟨enough, taken, after, hdelivered, hdelivered.inOrder, hdelivered.least.unique hleast, hrun⟩

end Wayfind.Remote
