/-
Everybody who listens gets every event, once and in order.

What is said of one reader is said by an induction over the turns since it began to listen, and no other
reader comes into it.  As long as it stays, each turn leaves its events in their order, and none is farther
away than before; so a reader that is served often enough has them all in the end.
-/
import Wayfind.Proofs.Connection.Seat

namespace Wayfind.Connection

open Protocol (Event)

/-! ### Since a reader began to listen -/

/-- How many have begun to listen; the next one gets this number. -/
def joined (past : List Turn) : Nat := past.countP Turn.joins

/-- The turns since the reader of a number began to listen. -/
def since : Nat → List Turn → List Turn
  | _, [] => []
  | 0, t :: rest => if t.joins then rest else since 0 rest
  | n + 1, t :: rest => if t.joins then since n rest else since (n + 1) rest

/-- The events that came in since the reader of a number began to listen. -/
def arrived (id : Nat) (past : List Turn) : List Event := (since id past).filterMap Turn.event?

/-- The reader of a number has begun to listen, and has not gone since. -/
def Listens (id : Nat) (past : List Turn) : Prop :=
  id < joined past ∧ Turn.act (.unlisten id) ∉ since id past

/-! ### A reader who stays -/

/-- The reader of a number is at a seat, with such events on their way. -/
structure Seat.Attends (id : Nat) (s : Seat) (f : Feed) : Prop where
  joined : id < s.joined
  feed : s.feed = some f
  live : f.Live

/-- What comes of some turns for a reader who stays: the events that it takes, and those on their way then. -/
structure Seat.Runs (id : Nat) (s : Seat) (f : Feed) (turns : List Turn) (taken : List Event) (after : Feed) :
    Prop where
  attends : (turns.foldl (Seat.turn id) s).Attends id after
  takes : (turns.foldl (Seat.turn id) s).taken = s.taken ++ taken
  passes : f.Passes taken (turns.filterMap Turn.event?) after

namespace Seat

variable {id : Nat} {s : Seat} {f after final : Feed} {t : Turn} {turns more : List Turn}
variable {taken taken' : List Event}

theorem Runs.append (h : s.Runs id f turns taken after)
    (h' : (turns.foldl (Seat.turn id) s).Runs id after more taken' final) :
    s.Runs id f (turns ++ more) (taken ++ taken') final := by
  refine ⟨?_, ?_, ?_⟩
  · rw [List.foldl_append]
    exact h'.attends
  · rw [List.foldl_append, h'.takes, h.takes, List.append_assoc]
  · rw [List.filterMap_append]
    exact h.passes.trans h'.passes

theorem Attends.runs_nil (h : s.Attends id f) : s.Runs id f [] [] f :=
  ⟨h, (List.append_nil _).symm, h.live.passes_same⟩

/-- A turn that changes nothing for the reader. -/
theorem Attends.runs_same (h : s.Attends id f) (hturn : s.turn id t = s) (hevent : t.event? = none) :
    s.Runs id f [t] [] f := by
  refine ⟨?_, ?_, ?_⟩
  · rw [List.foldl_cons, hturn]
    exact h
  · rw [List.foldl_cons, hturn, List.append_nil]
    rfl
  · rw [List.filterMap_cons, hevent]
    exact h.live.passes_same

/-- A turn of the reader or of its forwarder. -/
theorem Attends.runs_own (h : s.Attends id f) (hpasses : f.Passes taken [] after)
    (hturn : s.turn id t = { s with feed := some after, taken := s.taken ++ taken }) (hevent : t.event? = none) :
    s.Runs id f [t] taken after := by
  refine ⟨?_, ?_, ?_⟩
  · rw [List.foldl_cons, hturn]
    exact ⟨h.joined, rfl, hpasses.live⟩
  · rw [List.foldl_cons, hturn]
    rfl
  · rw [List.filterMap_cons, hevent]
    exact hpasses

theorem Attends.runs_forward (h : s.Attends id f) : s.Runs id f [.forward id] [] f.forward := by
  refine h.runs_own h.live.passes_forward ?_ rfl
  rw [Seat.turn, if_pos rfl, h.feed, List.append_nil]
  rfl

theorem Attends.runs_read (h : s.Attends id f) : s.Runs id f [.read id] f.next.1.toList f.next.2 := by
  refine h.runs_own h.live.passes_next ?_ rfl
  rw [Seat.turn, if_pos rfl, h.feed]
  rfl

theorem Attends.runs_takeEvents (h : s.Attends id f) (count : Nat) :
    s.Runs id f [.act (.takeEvents id count)] (f.take count).1 (f.take count).2 := by
  refine h.runs_own (h.live.passes_take count) ?_ rfl
  rw [Seat.turn, if_pos rfl, h.feed]
  rfl

theorem Attends.runs_receive (h : s.Attends id f) (text : String) :
    ∃ after, s.Runs id f [.act (.receive text)] [] after := by
  cases hevent : Connection.event? text with
  | none => exact ⟨f, h.runs_same (by rw [Seat.turn, hevent]) hevent⟩
  | some e =>
    obtain ⟨after, hoffer, hpasses⟩ := h.live.passes_offer e
    have hturn : s.turn id (.act (.receive text)) = { s with feed := some after } := by
      rw [Seat.turn, hevent, h.feed]
      exact congrArg (fun feed => { s with feed := feed }) hoffer
    refine ⟨after, ?_, ?_, ?_⟩
    · rw [List.foldl_cons, hturn]
      exact ⟨h.joined, rfl, hpasses.live⟩
    · rw [List.foldl_cons, hturn, List.append_nil]
      rfl
    · rw [List.filterMap_cons, Turn.event?, hevent]
      exact hpasses

theorem Attends.runs_listen (h : s.Attends id f) : s.Runs id f [.act .listen] [] f := by
  have hfeed : (s.turn id (.act .listen)).feed = some f := (if_neg (Nat.ne_of_gt h.joined)).trans h.feed
  exact ⟨⟨Nat.lt_succ_of_lt h.joined, hfeed, h.live⟩, (List.append_nil _).symm, h.live.passes_same⟩

/-- Any turn but the one in which the reader goes leaves it where it is. -/
theorem Attends.runs_turn (h : s.Attends id f) (hstays : t ≠ .act (.unlisten id)) :
    ∃ taken after, s.Runs id f [t] taken after := by
  cases t with
  | act a =>
    cases a with
    | receive text =>
      obtain ⟨after, hruns⟩ := h.runs_receive text
      exact ⟨[], after, hruns⟩
    | listen => exact ⟨_, _, h.runs_listen⟩
    | unlisten other =>
      have hother : other ≠ id := fun hid => hstays (by rw [hid])
      exact ⟨_, _, h.runs_same (if_neg hother) rfl⟩
    | takeEvents other count =>
      by_cases hother : other = id
      · subst hother
        exact ⟨_, _, h.runs_takeEvents count⟩
      · exact ⟨_, _, h.runs_same (if_neg hother) rfl⟩
    | _ => exact ⟨_, _, h.runs_same rfl rfl⟩
  | forward other =>
    by_cases hother : other = id
    · subst hother
      exact ⟨_, _, h.runs_forward⟩
    · exact ⟨_, _, h.runs_same (if_neg hother) rfl⟩
  | read other =>
    by_cases hother : other = id
    · subst hother
      exact ⟨_, _, h.runs_read⟩
    · exact ⟨_, _, h.runs_same (if_neg hother) rfl⟩

/-- As long as a reader stays, nothing is lost or repeated, and nothing changes its place. -/
theorem Attends.runs (h : s.Attends id f) (hstays : .act (.unlisten id) ∉ turns) :
    ∃ taken after, s.Runs id f turns taken after := by
  induction turns generalizing s f with
  | nil => exact ⟨_, _, h.runs_nil⟩
  | cons t turns ih =>
    rw [List.mem_cons, not_or] at hstays
    obtain ⟨taken, after, hturn⟩ := h.runs_turn (Ne.symm hstays.1)
    obtain ⟨taken', final, hruns⟩ := ih hturn.attends hstays.2
    exact ⟨_, _, hturn.append hruns⟩

end Seat

/-! ### A reader who is served -/

/-- What brings the next event to a reader: the forwarder takes it and puts it into the queue, and the
reader takes it from there. -/
def service (id : Nat) : List Turn := [.forward id, .forward id, .read id]

namespace Seat

variable {id : Nat} {s : Seat} {f : Feed} {turns : List Turn}

/-- Where the forwarder makes a move among other turns, the first event comes nearer or is taken. -/
theorem Attends.runs_of_forward (h : s.Attends id f) (hstays : .act (.unlisten id) ∉ turns)
    (hmem : .forward id ∈ turns) :
    ∃ taken after, s.Runs id f turns taken after ∧ (f.pending ≠ [] → taken ≠ [] ∨ after.IsNear) ∧
      (f.IsNear → taken ≠ [] ∨ after.queue ≠ []) := by
  obtain ⟨before, rest, rfl⟩ := List.append_of_mem hmem
  rw [List.mem_append, not_or, List.mem_cons, not_or] at hstays
  obtain ⟨taken, mid, hbefore⟩ := h.runs hstays.1
  have hmove := hbefore.attends.runs_forward
  obtain ⟨taken', after, hrest⟩ := hmove.attends.runs hstays.2.2
  refine ⟨_, _, hbefore.append (hmove.append hrest), fun hpending => ?_, fun hnear => ?_⟩
  · rcases hbefore.passes.pending hpending with htaken | hmid
    · exact Or.inl (List.append_ne_nil_of_left_ne_nil htaken _)
    · exact (hrest.passes.near (hbefore.attends.live.isNear_forward hmid)).imp_left
        (List.append_ne_nil_of_right_ne_nil _)
  · rcases hbefore.passes.near hnear with htaken | hmid
    · exact Or.inl (List.append_ne_nil_of_left_ne_nil htaken _)
    · exact (hrest.passes.queued (hbefore.attends.live.queue_forward hmid)).imp_left
        (List.append_ne_nil_of_right_ne_nil _)

theorem Attends.runs_of_read (h : s.Attends id f) (hstays : .act (.unlisten id) ∉ turns)
    (hmem : .read id ∈ turns) :
    ∃ taken after, s.Runs id f turns taken after ∧ (f.queue ≠ [] → taken ≠ []) := by
  obtain ⟨before, rest, rfl⟩ := List.append_of_mem hmem
  rw [List.mem_append, not_or, List.mem_cons, not_or] at hstays
  obtain ⟨taken, mid, hbefore⟩ := h.runs hstays.1
  have hread := hbefore.attends.runs_read
  obtain ⟨taken', after, hrest⟩ := hread.attends.runs hstays.2.2
  refine ⟨_, _, hbefore.append (hread.append hrest), fun hqueue => ?_⟩
  rcases hbefore.passes.queued hqueue with htaken | hmid
  · exact List.append_ne_nil_of_left_ne_nil htaken _
  · exact List.append_ne_nil_of_right_ne_nil _
      (List.append_ne_nil_of_left_ne_nil (Feed.next_of_queue hmid) _)

/-- One service, whatever comes between its turns, brings a reader an event if there is one. -/
theorem Attends.runs_of_service (h : s.Attends id f) (hstays : .act (.unlisten id) ∉ turns)
    (hservice : (service id).Sublist turns) :
    ∃ taken after, s.Runs id f turns taken after ∧ (f.pending ≠ [] → taken ≠ []) := by
  obtain ⟨first, rest, rfl, hfirst, hservice⟩ := List.cons_sublist_iff.mp hservice
  obtain ⟨second, third, rfl, hsecond, hthird⟩ := List.cons_sublist_iff.mp hservice
  rw [List.mem_append, not_or, List.mem_append, not_or] at hstays
  obtain ⟨taken₁, f₁, hruns₁, hnear, -⟩ := h.runs_of_forward hstays.1 hfirst
  obtain ⟨taken₂, f₂, hruns₂, -, hqueue⟩ := hruns₁.attends.runs_of_forward hstays.2.1 hsecond
  obtain ⟨taken₃, f₃, hruns₃, htaken⟩ :=
    hruns₂.attends.runs_of_read hstays.2.2 (List.singleton_sublist.mp hthird)
  refine ⟨_, _, hruns₁.append (hruns₂.append hruns₃), fun hpending => ?_⟩
  rcases hnear hpending with h₁ | hnear₁
  · exact List.append_ne_nil_of_left_ne_nil h₁ _
  · refine List.append_ne_nil_of_right_ne_nil _ ?_
    rcases hqueue hnear₁ with h₂ | hqueue₂
    · exact List.append_ne_nil_of_left_ne_nil h₂ _
    · exact List.append_ne_nil_of_right_ne_nil _ (htaken hqueue₂)

/-- So many services bring a reader so many events, or all that were on their way. -/
theorem Attends.runs_of_services (h : s.Attends id f) (hstays : .act (.unlisten id) ∉ turns) (n : Nat)
    (hservices : (List.replicate n (service id)).flatten.Sublist turns) :
    ∃ taken after, s.Runs id f turns taken after ∧
      (n ≤ taken.length ∨ f.pending.length ≤ taken.length) := by
  induction n generalizing s f turns with
  | zero =>
    obtain ⟨taken, after, hruns⟩ := h.runs hstays
    exact ⟨taken, after, hruns, Or.inl (Nat.zero_le _)⟩
  | succ n ih =>
    rw [List.replicate_succ, List.flatten_cons] at hservices
    obtain ⟨first, rest, rfl, hfirst, hrest⟩ := List.append_sublist_iff.mp hservices
    rw [List.mem_append, not_or] at hstays
    obtain ⟨taken, mid, hruns, hsome⟩ := h.runs_of_service hstays.1 hfirst
    obtain ⟨taken', after, hruns', hmany⟩ := ih hruns.attends hstays.2 hrest
    refine ⟨_, _, hruns.append hruns', ?_⟩
    rw [List.length_append]
    by_cases hpending : f.pending = []
    · exact Or.inr (by rw [hpending]; exact Nat.zero_le _)
    · have hone : 0 < taken.length := List.length_pos_iff.mpr (hsome hpending)
      have horder := congrArg List.length hruns.passes.order
      rw [List.length_append, List.length_append] at horder
      rcases hmany with hmany | hall
      · exact Or.inl (by omega)
      · exact Or.inr (by omega)

end Seat

/-! ### The events of one reader -/

theorem joined_cons (t : Turn) (past : List Turn) :
    joined (t :: past) = joined past + if t.joins then 1 else 0 := List.countP_cons

theorem since_cons_of_not {id : Nat} {t : Turn} (h : ¬ t.joins = true) (past : List Turn) :
    since id (t :: past) = since id past := by
  cases id <;> exact if_neg h

/-- Nobody has the number yet. -/
theorem since_of_le {id : Nat} {past : List Turn} (h : joined past ≤ id) : since id past = [] := by
  induction past generalizing id with
  | nil => cases id <;> rfl
  | cons t past ih =>
    rw [joined_cons] at h
    by_cases hjoins : t.joins = true
    · rw [if_pos hjoins] at h
      cases id with
      | zero => exact absurd h (Nat.not_succ_le_zero _)
      | succ id =>
        rw [since, if_pos hjoins]
        exact ih (Nat.le_of_succ_le_succ h)
    · rw [if_neg hjoins] at h
      rw [since_cons_of_not hjoins]
      exact ih h

theorem since_append {id : Nat} {past : List Turn} (h : id < joined past) (more : List Turn) :
    since id (past ++ more) = since id past ++ more := by
  induction past generalizing id with
  | nil => exact absurd h (Nat.not_lt_zero id)
  | cons t past ih =>
    rw [joined_cons] at h
    rw [List.cons_append]
    by_cases hjoins : t.joins = true
    · cases id with
      | zero => rw [since, since, if_pos hjoins, if_pos hjoins]
      | succ id =>
        rw [if_pos hjoins] at h
        rw [since, since, if_pos hjoins, if_pos hjoins, ih (Nat.lt_of_succ_lt_succ h)]
    · rw [if_neg hjoins] at h
      rw [since_cons_of_not hjoins, since_cons_of_not hjoins, ih h]

/-- The turn in which the reader of a number began to listen. -/
theorem listen_of_lt {id : Nat} {past : List Turn} (h : id < joined past) :
    ∃ before, past = before ++ .act .listen :: since id past ∧ joined before = id := by
  induction past generalizing id with
  | nil => exact absurd h (Nat.not_lt_zero id)
  | cons t past ih =>
    rw [joined_cons] at h
    by_cases hjoins : t.joins = true
    · cases id with
      | zero =>
        have hlisten : t = .act .listen := by
          unfold Turn.joins at hjoins
          split at hjoins
          · rfl
          · exact absurd hjoins nofun
        refine ⟨[], ?_, rfl⟩
        rw [since, if_pos hjoins, hlisten]
        rfl
      | succ id =>
        rw [if_pos hjoins] at h
        obtain ⟨before, hpast, hbefore⟩ := ih (Nat.lt_of_succ_lt_succ h)
        refine ⟨t :: before, ?_, ?_⟩
        · rw [since, if_pos hjoins, List.cons_append, ← hpast]
        · rw [joined_cons, if_pos hjoins, hbefore]
    · rw [if_neg hjoins] at h
      obtain ⟨before, hpast, hbefore⟩ := ih h
      refine ⟨t :: before, ?_, ?_⟩
      · rw [since_cons_of_not hjoins, List.cons_append, ← hpast]
      · rw [joined_cons, if_neg hjoins, hbefore, Nat.add_zero]

namespace Seat

/-- Before somebody has the number, nothing is on its way to them. -/
theorem foldl_before {id : Nat} (n : Nat) {before : List Turn} (h : n + Connection.joined before ≤ id) :
    before.foldl (Seat.turn id) ⟨n, none, []⟩ = ⟨n + Connection.joined before, none, []⟩ := by
  induction before generalizing n with
  | nil => rfl
  | cons t before ih =>
    have hcount : n + Connection.joined (t :: before) =
        n + (if t.joins then 1 else 0) + Connection.joined before := by
      rw [joined_cons]
      omega
    have hturn : (⟨n, none, []⟩ : Seat).turn id t = ⟨n + if t.joins then 1 else 0, none, []⟩ := by
      cases t with
      | act a =>
        cases a with
        | receive text =>
          rw [Seat.turn]
          split <;> rfl
        | listen =>
          have hne : n ≠ id := by
            rw [hcount] at h
            have : Turn.joins (.act .listen) = true := rfl
            rw [this, if_pos rfl] at h
            omega
          exact congrArg (fun feed => (⟨n + 1, feed, []⟩ : Seat)) (if_neg hne)
        | unlisten other | takeEvents other count => exact ite_self _
        | _ => rfl
      | forward other | read other => exact ite_self _
    rw [hcount] at h ⊢
    rw [List.foldl_cons, hturn]
    exact ih _ h

end Seat

section Flows

variable {past : List Turn} {got : List (Nat × Event)} {c : Connection} {id : Nat}

/-- For a reader, the turns count from when it began to listen. -/
theorem Flow.seat_since (h : Flow past got c) (hid : id < joined past) :
    seat id c got = (since id past).foldl (Seat.turn id) ⟨id + 1, some .opened, []⟩ := by
  obtain ⟨before, hpast, hbefore⟩ := listen_of_lt hid
  have hstart : before.foldl (Seat.turn id) .start = ⟨id, none, []⟩ := by
    have hcount : 0 + joined before = id := (Nat.zero_add _).trans hbefore
    exact (Seat.foldl_before 0 (Nat.le_of_eq hcount)).trans (by rw [hcount])
  have hlisten : (⟨id, none, []⟩ : Seat).turn id (.act .listen) = ⟨id + 1, some .opened, []⟩ :=
    congrArg (fun feed => (⟨id + 1, feed, []⟩ : Seat)) (if_pos rfl)
  refine (h.seat_eq id).2.trans ?_
  conv_lhs => rw [hpast]
  rw [List.foldl_append, hstart, List.foldl_cons, hlisten]

theorem attends_opened (id : Nat) : Seat.Attends id ⟨id + 1, some .opened, []⟩ .opened :=
  ⟨Nat.lt_succ_self id, rfl, Feed.live_opened⟩

/-- What came in for a reader is with it or on its way, in the order in which it came in. -/
theorem Flow.arrived_eq (h : Flow past got c) (hlistens : Listens id past) :
    ∃ f, c.feed? id = some f ∧ f.Live ∧ arrived id past = delivered id got ++ f.pending := by
  obtain ⟨taken, f, hruns⟩ := (attends_opened id).runs hlistens.2
  have hseat := h.seat_since hlistens.1
  have hfeed : (seat id c got).feed = some f := hseat ▸ hruns.attends.feed
  have htaken : delivered id got = taken := (congrArg Seat.taken hseat).trans hruns.takes
  refine ⟨f, hfeed, hruns.attends.live, ?_⟩
  rw [htaken]
  exact hruns.passes.order

/-- A reader that is served often enough has what came in, however far it was behind. -/
theorem Flow.arrived_of_services {more : List Turn} (h : Flow (past ++ more) got c)
    (hlistens : Listens id (past ++ more))
    (hservices : (List.replicate (arrived id past).length (service id)).flatten.Sublist more) :
    arrived id past <+: delivered id got := by
  by_cases hid : id < joined past
  · have hsince := since_append hid more
    have hstays := hlistens.2
    rw [hsince, List.mem_append, not_or] at hstays
    obtain ⟨taken, f, hruns⟩ := (attends_opened id).runs hstays.1
    obtain ⟨taken', after, hruns', hmany⟩ := hruns.attends.runs_of_services hstays.2 _ hservices
    have harrived : arrived id past = taken ++ f.pending := hruns.passes.order
    have hdelivered : delivered id got = taken ++ taken' := by
      have hseat := congrArg Seat.taken (h.seat_since hlistens.1)
      rw [hsince] at hseat
      exact hseat.trans (hruns.append hruns').takes
    have hlength : f.pending.length ≤ taken'.length := by
      rcases hmany with hmany | hall
      · rw [harrived, List.length_append] at hmany
        omega
      · exact hall
    have hfront : f.pending <+: taken' := by
      refine List.prefix_of_prefix_length_le ?_ (List.prefix_append taken' after.pending) hlength
      rw [← hruns'.passes.order]
      exact List.prefix_append _ _
    rw [harrived, hdelivered]
    exact (List.prefix_append_right_inj taken).mpr hfront
  · rw [arrived, since_of_le (Nat.le_of_not_lt hid)]
    exact List.nil_prefix

/-- What somebody who listens gets. -/
structure Broadcast (id : Nat) (past : List Turn) (got : List (Nat × Event)) (c : Connection) : Prop where
  /-- What came in since is with the reader or on its way, and the reader finds what is on its way. -/
  ordered : Listens id past → ∃ f, c.feed? id = some f ∧ f.queue.length ≤ Feed.capacity ∧
    arrived id past = delivered id got ++ f.pending ∧ ∀ count, (c.takeEvents id count).1 = f.pending.take count
  /-- However far the reader is behind, it gets everything if it is served often enough, whatever comes
  between the services. -/
  served : ∀ more got' c', Flow (past ++ more) got' c' → Listens id (past ++ more) →
    (List.replicate (arrived id past).length (service id)).flatten.Sublist more →
      arrived id past <+: delivered id got'
  /-- Had another reader never gone, this one would have the same. -/
  spared : ∀ other, other ≠ id → ∃ got' c', Flow (past.filter fun t => !t.leaves other) got' c' ∧
    delivered id got' = delivered id got ∧ c'.feed? id = c.feed? id
  /-- How fast other readers are, and when they go, makes no difference. -/
  apart : ∀ past' got' c', Flow past' got' c' →
    past'.filter (Turn.concerns id) = past.filter (Turn.concerns id) →
      delivered id got' = delivered id got ∧ c'.feed? id = c.feed? id

/-- However texts, readers who come and go, and the turns of forwarders and readers follow upon each other,
every reader gets the events that come in while it listens. -/
theorem broadcast_of_flow (h : Flow past got c) (id : Nat) : Broadcast id past got c := by
  constructor
  case ordered =>
    intro hlistens
    obtain ⟨f, hfeed, hlive, harrived⟩ := h.arrived_eq hlistens
    refine ⟨f, hfeed, hlive.bounded, harrived, fun count => ?_⟩
    rw [takeEvents, hfeed]
    exact (hlive.take count).2.1
  case served => exact fun more got' c' h' => h'.arrived_of_services
  case spared =>
    intro other hother
    obtain ⟨got', c', hflow, hseat⟩ := h.seat_without_leaving hother
    exact ⟨got', c', hflow, congrArg Seat.taken hseat, congrArg Seat.feed hseat⟩
  case apart =>
    intro past' got' c' h' hsame
    have hseat := h.seat_eq_of_concerns h' hsame
    exact ⟨congrArg Seat.taken hseat, congrArg Seat.feed hseat⟩

/-- One of two readers goes between two events; the other takes the first of them. -/
theorem broadcast_of_departure :
    ∃ past got c, Flow past got c ∧ Listens 0 past ∧ ¬ Listens 1 past ∧
      (arrived 0 past).map (·.method) = ["A", "B"] ∧ (delivered 0 got).map (·.method) = ["A"] ∧
      Broadcast 0 past got c := by
  have hlisten := (Flow.opened.act .listen).act .listen
  have hfirst := (hlisten.act (.receive "\x7b\"method\":\"A\"\x7d")).act (.receive "\x7b\"id\":1\x7d")
  have hgone := (hfirst.act (.unlisten 1)).act (.receive "nothing")
  have hend := (((hgone.forward 0).act (.receive "\x7b\"method\":\"B\"\x7d")).forward 0).read 0
  refine ⟨_, _, _, hend, ⟨by decide, ?_⟩, fun hlistens => hlistens.2 ?_, by cbv, by cbv,
    broadcast_of_flow hend 0⟩
  · simp [since, Turn.joins]
  · simp [since, Turn.joins]

end Flows

end Wayfind.Connection
