/-
What happens to a connection, as one reader of its events sees it.

Between texts that come in, forwarders make their moves and readers take events, each at its own pace, and
readers come and go.  All of this is a `Flow`: the turns that were taken, in any order, and the events that
were taken out by whom.  What a flow means for one reader (`Seat`) depends on the texts, on the numbers
given to readers and on the turns of its own, and on nothing else.
-/
import Wayfind.Proofs.Connection.Correlation
import Wayfind.Proofs.Connection.Feed

namespace Wayfind.Connection

open Protocol (Event Incoming Reply)

/-! ### Turns -/

/-- What may happen to a connection and to its readers. -/
inductive Turn where
  | act (a : Act)
  /-- The forwarder of a reader makes a move. -/
  | forward (id : Nat)
  /-- A reader takes an event, if one is there. -/
  | read (id : Nat)

/-- The events that are taken out in a step, each with the number of its reader. -/
def takenBy (c : Connection) : Act → List (Nat × Event)
  | .takeEvents id count => (c.takeEvents id count).1.map (id, ·)
  | _ => []

/-- The turns of a connection since it was made, the events that were taken out, and how it is then. -/
inductive Flow : List Turn → List (Nat × Event) → Connection → Prop
  | opened : Flow [] [] .opened
  | act {past : List Turn} {got : List (Nat × Event)} {c after : Connection} {a : Act}
      (h : Flow past got c) (hstep : Step c a after) :
      Flow (past ++ [.act a]) (got ++ c.takenBy a) after
  | forward {past : List Turn} {got : List (Nat × Event)} {c : Connection} (h : Flow past got c) (id : Nat) :
      Flow (past ++ [.forward id]) got (c.forward id)
  | read {past : List Turn} {got : List (Nat × Event)} {c : Connection} (h : Flow past got c) (id : Nat) :
      Flow (past ++ [.read id]) (got ++ (c.takeEvent id).1.toList.map (id, ·)) (c.takeEvent id).2

/-- The event that a text is: it does not read as a reply, but as an event. -/
def event? (text : String) : Option Event :=
  match Json.Reader.ofText? Reply.reader text with
  | some _ => none
  | none => Json.Reader.ofText? Event.reader text

/-- The event that comes in with a turn. -/
def Turn.event? : Turn → Option Event
  | .act (.receive text) => Connection.event? text
  | _ => none

/-- Somebody begins to listen. -/
def Turn.joins : Turn → Bool
  | .act .listen => true
  | _ => false

/-- The events that the reader of a number has taken. -/
def delivered (id : Nat) (got : List (Nat × Event)) : List Event :=
  got.filterMap fun (reader, e) => if reader = id then some e else none

/-- The turn may mean something to the reader of a number: a text, a new reader, or a turn of its own. -/
def Turn.concerns (id : Nat) : Turn → Bool
  | .act (.receive _) | .act .listen => true
  | .act (.unlisten other) | .act (.takeEvents other _) | .forward other | .read other => other == id
  | .act _ => false

/-- The reader of a number goes. -/
def Turn.leaves (id : Nat) : Turn → Bool
  | .act (.unlisten other) => other == id
  | _ => false

theorem Turn.eq_of_leaves {id : Nat} {t : Turn} (h : t.leaves id = true) : t = .act (.unlisten id) := by
  unfold Turn.leaves at h
  split at h
  · rw [beq_iff_eq.mp h]
  · exact absurd h nofun

/-! ### One reader -/

/-- What there is for one reader: how many have begun to listen, the events on their way to the reader, and
those it has taken. -/
structure Seat where
  joined : Nat
  feed : Option Feed
  taken : List Event

namespace Seat

/-- Before anything has happened. -/
def start : Seat := ⟨0, none, []⟩

/-- What a turn means for the reader of a number. -/
def turn (id : Nat) (s : Seat) : Turn → Seat
  | .act (.receive text) => match Connection.event? text with
    | some e => { s with feed := s.feed.bind (·.offer e) }
    | none => s
  | .act .listen =>
    { s with joined := s.joined + 1, feed := if s.joined = id then some .opened else s.feed }
  | .act (.unlisten other) => if other = id then { s with feed := s.feed.map Feed.leave } else s
  | .act (.takeEvents other count) =>
    if other = id then
      { s with
        feed := s.feed.map fun f => (f.take count).2
        taken := s.taken ++ (s.feed.map fun f => (f.take count).1).getD [] }
    else s
  | .forward other => if other = id then { s with feed := s.feed.map Feed.forward } else s
  | .read other =>
    if other = id then
      { s with feed := s.feed.map (·.next.2), taken := s.taken ++ (s.feed.bind (·.next.1)).toList }
    else s
  | .act _ => s

end Seat

/-- What there is of a connection for the reader of a number. -/
def seat (id : Nat) (c : Connection) (got : List (Nat × Event)) : Seat :=
  ⟨c.nextListener, c.feed? id, delivered id got⟩

/-- The readers have numbers of their own, below the next one. -/
structure Numbered (c : Connection) : Prop where
  nodup : (c.listeners.map (·.id)).Nodup
  below : ∀ l ∈ c.listeners, l.id < c.nextListener

section Feeds

variable {c after : Connection} {id : Nat}

theorem feed?_modifyFeed (c : Connection) (id other : Nat) (change : Feed → Feed) :
    (c.modifyFeed other change).feed? id = if other = id then (c.feed? id).map change else c.feed? id := by
  have hsame : ((fun l : Listener => l.id == id) ∘
      fun l => if l.id = other then { l with feed := change l.feed } else l) = fun l => l.id == id := by
    funext l
    by_cases h : l.id = other <;> simp [h]
  rw [feed?, modifyFeed, List.find?_map, hsame, feed?, Option.map_map, Option.map_map]
  cases hfound : c.listeners.find? (·.id == id) with
  | none => simp
  | some l =>
    have hid : l.id = id := by simpa using List.find?_some hfound
    by_cases h : other = id
    · simp [h, hid]
    · have hne : ¬ l.id = other := fun hother => h (hother.symm.trans hid)
      simp [h, hne]

theorem feed?_listen (hc : Numbered c) (id : Nat) :
    c.listen.2.feed? id = if c.nextListener = id then some .opened else c.feed? id := by
  rw [feed?, listen, List.find?_append, feed?]
  by_cases h : c.nextListener = id
  · have hnone : c.listeners.find? (·.id == id) = none := by
      refine List.find?_eq_none.mpr fun l hl hid => ?_
      exact Nat.ne_of_lt (hc.below l hl) ((beq_iff_eq.mp hid).trans h.symm)
    simp [hnone, h]
  · simp [h]

/-- What is handed over to everybody is handed over to the one reader, or the reader is forgotten. -/
theorem find?_offer {ls : List Listener} (h : (ls.map (·.id)).Nodup) (e : Event) (id : Nat) :
    ((ls.filterMap (·.offer e)).find? (·.id == id)).map (·.feed) =
      ((ls.find? (·.id == id)).map (·.feed)).bind (·.offer e) := by
  induction ls with
  | nil => rfl
  | cons l rest ih =>
    rw [List.map_cons, List.nodup_cons] at h
    rw [List.filterMap_cons, List.find?_cons, Listener.offer]
    by_cases hid : l.id = id
    · rw [beq_iff_eq.mpr hid]
      cases hoffer : l.feed.offer e with
      | some f =>
        have hfirst : (({ l with feed := f } : Listener) :: rest.filterMap (·.offer e)).find? (·.id == id) =
            some { l with feed := f } := List.find?_cons_of_pos (beq_iff_eq.mpr hid)
        dsimp only [Option.map_some]
        rw [hfirst]
        exact hoffer.symm
      | none =>
        -- Nobody else has the number.
        have hnone : rest.find? (·.id == id) = none := by
          refine List.find?_eq_none.mpr fun other hother hsame => h.1 ?_
          rw [hid, ← beq_iff_eq.mp hsame]
          exact List.mem_map_of_mem hother
        refine (ih h.2).trans ?_
        rw [hnone]
        exact hoffer.symm
    · rw [beq_eq_false_iff_ne.mpr hid]
      cases l.feed.offer e with
      | some f =>
        have hfirst : (({ l with feed := f } : Listener) :: rest.filterMap (·.offer e)).find? (·.id == id) =
            (rest.filterMap (·.offer e)).find? (·.id == id) :=
          List.find?_cons_of_neg fun h => hid (beq_iff_eq.mp h)
        dsimp only [Option.map_some]
        rw [hfirst]
        exact ih h.2
      | none => exact ih h.2

theorem feed?_event (hc : Numbered c) (e : Event) (id : Nat) :
    (c.event e).feed? id = (c.feed? id).bind (·.offer e) :=
  find?_offer hc.nodup e id

theorem numbered_opened : Numbered .opened := ⟨.nil, nofun⟩

theorem Numbered.same (h : Numbered c) (hlisteners : after.listeners = c.listeners)
    (hnext : after.nextListener = c.nextListener) : Numbered after :=
  ⟨hlisteners ▸ h.nodup, hlisteners ▸ hnext ▸ h.below⟩

theorem Numbered.modifyFeed (h : Numbered c) (other : Nat) (change : Feed → Feed) :
    Numbered (c.modifyFeed other change) := by
  have hid : ∀ l : Listener, (if l.id = other then { l with feed := change l.feed } else l).id = l.id := by
    intro l
    split <;> rfl
  refine ⟨?_, fun l hl => ?_⟩
  · rw [Connection.modifyFeed, List.map_map]
    exact (congrArg List.Nodup (List.map_congr_left fun l _ => hid l)).mpr h.nodup
  · obtain ⟨l', hl', rfl⟩ := List.mem_map.mp hl
    rw [hid]
    exact h.below l' hl'

theorem Numbered.listen (h : Numbered c) : Numbered c.listen.2 := by
  refine ⟨?_, fun l hl => ?_⟩
  · rw [Connection.listen, List.map_append, List.nodup_append]
    refine ⟨h.nodup, List.nodup_singleton _, fun id hid other hother => ?_⟩
    obtain ⟨l, hl, rfl⟩ := List.mem_map.mp hid
    rw [List.mem_singleton.mp hother]
    exact Nat.ne_of_lt (h.below l hl)
  · rcases List.mem_append.mp hl with hl | hl
    · exact Nat.lt_succ_of_lt (h.below l hl)
    · rw [List.mem_singleton.mp hl]
      exact Nat.lt_succ_self _

theorem Numbered.event (h : Numbered c) (e : Event) : Numbered (c.event e) := by
  have hid : ∀ l l' : Listener, l.offer e = some l' → l'.id = l.id := by
    intro l l' hoffer
    obtain ⟨f, -, rfl⟩ := Option.map_eq_some_iff.mp hoffer
    rfl
  refine ⟨?_, fun l hl => ?_⟩
  · refine List.pairwise_map.mpr ((List.pairwise_map.mp h.nodup).filterMap _ fun l l' hne a ha a' ha' => ?_)
    rw [hid l a ha, hid l' a' ha']
    exact hne
  · obtain ⟨l', hl', hoffer⟩ := List.mem_filterMap.mp hl
    rw [hid l' l hoffer]
    exact h.below l' hl'

end Feeds

/-! ### A turn, as one reader sees it -/

section Turns

variable {c after : Connection} {id : Nat} {got : List (Nat × Event)}

theorem delivered_append (id : Nat) (got more : List (Nat × Event)) :
    delivered id (got ++ more) = delivered id got ++ delivered id more := List.filterMap_append

theorem delivered_map (id other : Nat) (es : List Event) :
    delivered id (es.map (other, ·)) = if other = id then es else [] := by
  induction es with
  | nil => simp [delivered]
  | cons e es ih =>
    unfold delivered at ih ⊢
    rw [List.map_cons, List.filterMap_cons, ih]
    by_cases h : other = id <;> simp [h]

/-- Who listens stays the same, and so does everybody's seat. -/
theorem seat_same (hlisteners : after.listeners = c.listeners) (hnext : after.nextListener = c.nextListener) :
    seat id after (got ++ []) = seat id c got := by
  rw [List.append_nil, seat, seat, feed?, feed?, hlisteners, hnext]

/-- A text is an event for everybody who listens, or for nobody. -/
theorem receive_cases (c : Connection) (text : String) :
    (∃ e, event? text = some e ∧ c.receive text = c.event e) ∨
      event? text = none ∧ (c.receive text).listeners = c.listeners ∧
        (c.receive text).nextListener = c.nextListener := by
  unfold receive Incoming.ofText event?
  cases Json.Reader.ofText? Reply.reader text with
  | some r =>
    refine Or.inr ⟨rfl, ?_⟩
    dsimp only [reply]
    split <;> exact ⟨rfl, rfl⟩
  | none =>
    cases Json.Reader.ofText? Event.reader text with
    | some e => exact Or.inl ⟨e, rfl, rfl⟩
    | none => exact Or.inr ⟨rfl, rfl, rfl⟩

theorem collect_listeners (c : Connection) (id : CommandId) :
    (c.collect id).listeners = c.listeners ∧ (c.collect id).nextListener = c.nextListener := by
  rcases collect_cases c id with hsame | ⟨d, outcome, -, -, -, -, hsame⟩ <;> rw [hsame] <;> exact ⟨rfl, rfl⟩

theorem expire_listeners (c : Connection) (id : CommandId) :
    (c.expire id).listeners = c.listeners ∧ (c.expire id).nextListener = c.nextListener := by
  rcases expire_cases c id with hsame | hsame | ⟨d, -, -, -, hsame⟩ <;> rw [hsame]
  · exact collect_listeners c id
  · exact ⟨rfl, rfl⟩
  · exact ⟨rfl, rfl⟩

/-- What a reader does, or its forwarder, no other reader sees. -/
theorem seat_modifyFeed (other : Nat) (change : Feed → Feed) (es : List Event) :
    seat id (c.modifyFeed other change) (got ++ es.map (other, ·)) =
      if other = id then
        { seat id c got with feed := (c.feed? id).map change, taken := delivered id got ++ es }
      else seat id c got := by
  rw [seat, feed?_modifyFeed, delivered_append, delivered_map]
  by_cases h : other = id
  · simp only [h, if_true]
    rfl
  · simp only [h, if_false, List.append_nil]
    rfl

theorem seat_modifyFeed_nil (other : Nat) (change : Feed → Feed) :
    seat id (c.modifyFeed other change) got =
      if other = id then { seat id c got with feed := (c.feed? id).map change } else seat id c got := by
  have h : seat id (c.modifyFeed other change) (got ++ [].map (other, ·)) = _ := seat_modifyFeed other change []
  rw [List.map_nil, List.append_nil, List.append_nil] at h
  exact h

theorem seat_act (id : Nat) {a : Act} (hc : Numbered c) (hstep : Step c a after) :
    Numbered after ∧ seat id after (got ++ c.takenBy a) = (seat id c got).turn id (.act a) := by
  cases hstep with
  | start h =>
    unfold Connection.start at h
    split at h
    · obtain ⟨-, rfl⟩ := Prod.mk.inj (Except.ok.inj h)
      exact ⟨hc.same rfl rfl, seat_same rfl rfl⟩
    · exact absurd h nofun
  | register | written | writeFailed | abandon | deactivate | sever =>
    exact ⟨hc.same rfl rfl, seat_same rfl rfl⟩
  | collect other =>
    obtain ⟨hlisteners, hnext⟩ := collect_listeners c other
    exact ⟨hc.same hlisteners hnext, seat_same hlisteners hnext⟩
  | expire other =>
    obtain ⟨hlisteners, hnext⟩ := expire_listeners c other
    exact ⟨hc.same hlisteners hnext, seat_same hlisteners hnext⟩
  | receive text =>
    rcases receive_cases c text with ⟨e, hevent, hreceive⟩ | ⟨hevent, hlisteners, hnext⟩
    · rw [hreceive]
      refine ⟨hc.event e, ?_⟩
      show seat id (c.event e) (got ++ []) = _
      rw [List.append_nil, Seat.turn, hevent, seat, feed?_event hc]
      rfl
    · refine ⟨hc.same hlisteners hnext, ?_⟩
      rw [Seat.turn, hevent]
      exact seat_same hlisteners hnext
  | listen =>
    refine ⟨hc.listen, ?_⟩
    show seat id c.listen.2 (got ++ []) = _
    rw [List.append_nil, seat, feed?_listen hc]
    rfl
  | unlisten other =>
    refine ⟨hc.modifyFeed other Feed.leave, ?_⟩
    show seat id (c.modifyFeed other Feed.leave) (got ++ []) = _
    rw [List.append_nil, seat_modifyFeed_nil]
    rfl
  | takeEvents other count =>
    refine ⟨hc.modifyFeed other fun f => (f.take count).2, (seat_modifyFeed other _ _).trans ?_⟩
    by_cases h : other = id
    · subst h
      rfl
    · rw [if_neg h, Seat.turn, if_neg h]

/-- What there is for one reader is what the turns mean for it, one after another. -/
theorem Flow.seat_eq {past : List Turn} (h : Flow past got c) (id : Nat) :
    Numbered c ∧ seat id c got = past.foldl (Seat.turn id) .start := by
  induction h with
  | opened => exact ⟨numbered_opened, rfl⟩
  | act h hstep ih =>
    obtain ⟨hnumbered, hseat⟩ := seat_act id ih.1 hstep
    rw [List.foldl_append, ← ih.2]
    exact ⟨hnumbered, hseat⟩
  | forward h other ih =>
    rw [List.foldl_append, ← ih.2]
    exact ⟨ih.1.modifyFeed other _, seat_modifyFeed_nil other _⟩
  | read h other ih =>
    rw [List.foldl_append, ← ih.2]
    refine ⟨ih.1.modifyFeed other (·.next.2), (seat_modifyFeed other _ _).trans ?_⟩
    by_cases hid : other = id
    · subst hid
      rfl
    · exact (if_neg hid).trans (if_neg hid).symm

end Turns

/-! ### Other readers -/

namespace Seat

/-- A turn that does not concern a reader changes nothing for it. -/
theorem turn_of_not_concerns {id : Nat} {t : Turn} (s : Seat) (h : t.concerns id = false) : s.turn id t = s := by
  cases t with
  | act a =>
    cases a with
    | receive text | listen => exact absurd h nofun
    | unlisten other | takeEvents other count => exact if_neg (beq_eq_false_iff_ne.mp h)
    | _ => rfl
  | forward other | read other => exact if_neg (beq_eq_false_iff_ne.mp h)

theorem foldl_concerns (id : Nat) (s : Seat) (past : List Turn) :
    (past.filter (Turn.concerns id)).foldl (Seat.turn id) s = past.foldl (Seat.turn id) s := by
  rw [List.foldl_filter]
  refine congrArg (List.foldl · s past) (funext fun s => funext fun t => ?_)
  cases h : t.concerns id with
  | true => rfl
  | false => exact (s.turn_of_not_concerns h).symm

end Seat

/-- What becomes of a reader depends on the turns that concern it. -/
theorem Flow.seat_eq_of_concerns {past past' : List Turn} {got got' : List (Nat × Event)} {c c' : Connection}
    {id : Nat} (h : Flow past got c) (h' : Flow past' got' c')
    (hsame : past'.filter (Turn.concerns id) = past.filter (Turn.concerns id)) :
    seat id c' got' = seat id c got :=
  calc seat id c' got'
      = past'.foldl (Seat.turn id) .start := (h'.seat_eq id).2
    _ = (past.filter (Turn.concerns id)).foldl (Seat.turn id) .start := by rw [← hsame, Seat.foldl_concerns]
    _ = past.foldl (Seat.turn id) .start := Seat.foldl_concerns id _ past
    _ = seat id c got := ((h.seat_eq id).2).symm

/-! ### A reader who might not have gone -/

section Alike

variable {c c' after : Connection}

/-- Two connections that differ at most in who listens. -/
def Alike (c c' : Connection) : Prop := ∃ ls n, c' = { c with listeners := ls, nextListener := n }

theorem Alike.command? (h : Alike c c') (id : CommandId) : c'.command? id = c.command? id := by
  obtain ⟨ls, n, rfl⟩ := h
  rfl

theorem Alike.collect (h : Alike c c') (id : CommandId) : Alike (c.collect id) (c'.collect id) := by
  have hcommand := h.command? id
  obtain ⟨ls, n, rfl⟩ := h
  refine ⟨ls, n, ?_⟩
  unfold Connection.collect
  rw [hcommand]
  cases c.command? id with
  | none => rfl
  | some d =>
    dsimp only
    split <;> rfl

theorem Alike.expire (h : Alike c c') (id : CommandId) : Alike (c.expire id) (c'.expire id) := by
  have hcommand := (h.collect id).command? id
  obtain ⟨ls, n, hcollect⟩ := h.collect id
  unfold Connection.expire
  rw [hcommand, hcollect]
  cases (c.collect id).command? id with
  | none => exact h
  | some d =>
    refine ⟨ls, n, ?_⟩
    dsimp only
    split <;> rfl

/-- Who listens makes no difference to what can happen. -/
theorem Step.alike {a : Act} (h : Step c a after) (halike : Alike c c') :
    ∃ after', Step c' a after' ∧ Alike after after' := by
  obtain ⟨ls, n, rfl⟩ := halike
  have halike : Alike c { c with listeners := ls, nextListener := n } := ⟨ls, n, rfl⟩
  cases h with
  | start h =>
    unfold Connection.start at h
    split at h
    · next hactive =>
      obtain ⟨rfl, rfl⟩ := Prod.mk.inj (Except.ok.inj h)
      exact ⟨_, .start (if_pos hactive), ls, n, rfl⟩
    · exact absurd h nofun
  | register hd hs => exact ⟨_, .register hd hs, ls, n, rfl⟩
  | written hd hs => exact ⟨_, .written hd hs, ls, n, rfl⟩
  | writeFailed hd hs => exact ⟨_, .writeFailed hd hs, ls, n, rfl⟩
  | abandon hd hs => exact ⟨_, .abandon hd hs, ls, n, rfl⟩
  | collect id => exact ⟨_, .collect id, halike.collect id⟩
  | expire id => exact ⟨_, .expire id, halike.expire id⟩
  | deactivate => exact ⟨_, .deactivate, ls, n, rfl⟩
  | sever => exact ⟨_, .sever, ls, n, rfl⟩
  | listen => exact ⟨_, .listen, _, _, rfl⟩
  | unlisten id => exact ⟨_, .unlisten id, _, _, rfl⟩
  | takeEvents id count => exact ⟨_, .takeEvents id count, _, _, rfl⟩
  | receive text =>
    refine ⟨_, .receive text, ?_⟩
    unfold Connection.receive
    cases Incoming.ofText text with
    | unknown => exact halike
    | event e => exact ⟨_, _, rfl⟩
    | reply r =>
      refine ⟨ls, n, ?_⟩
      dsimp only [reply]
      split <;> rfl

/-- What happened might have happened had a reader never gone. -/
theorem Flow.without_leaving {past : List Turn} {got : List (Nat × Event)} (h : Flow past got c) (id : Nat) :
    ∃ got' c', Flow (past.filter fun t => !t.leaves id) got' c' ∧ Alike c c' := by
  induction h with
  | opened => exact ⟨_, _, .opened, _, _, rfl⟩
  | act h hstep ih =>
    obtain ⟨got', c', hflow, halike⟩ := ih
    rw [List.filter_append]
    cases hleaves : Turn.leaves id (.act _) with
    | false =>
      obtain ⟨after', hstep', halike'⟩ := hstep.alike halike
      rw [List.filter_cons_of_pos (by rw [hleaves]; rfl)]
      exact ⟨_, _, hflow.act hstep', halike'⟩
    | true =>
      rw [List.filter_cons_of_neg (by rw [hleaves]; exact nofun), List.filter_nil, List.append_nil]
      obtain rfl := Turn.act.inj (Turn.eq_of_leaves hleaves)
      cases hstep
      obtain ⟨ls, n, rfl⟩ := halike
      exact ⟨_, _, hflow, ls, n, rfl⟩
  | forward h other ih =>
    obtain ⟨got', c', hflow, ls, n, rfl⟩ := ih
    rw [List.filter_append]
    exact ⟨_, _, hflow.forward other, _, _, rfl⟩
  | read h other ih =>
    obtain ⟨got', c', hflow, ls, n, rfl⟩ := ih
    rw [List.filter_append]
    exact ⟨_, _, hflow.read other, _, _, rfl⟩

end Alike

theorem filter_concerns_leaves {id other : Nat} (hother : other ≠ id) (past : List Turn) :
    (past.filter fun t => !t.leaves other).filter (Turn.concerns id) = past.filter (Turn.concerns id) := by
  rw [List.filter_filter]
  refine List.filter_congr fun t _ => ?_
  cases hleaves : t.leaves other with
  | false => simp
  | true =>
    rw [Turn.eq_of_leaves hleaves]
    simp [Turn.concerns, hother]

/-- Had another reader never gone, there would be the same for this one. -/
theorem Flow.seat_without_leaving {past : List Turn} {got : List (Nat × Event)} {c : Connection} {id other : Nat}
    (h : Flow past got c) (hother : other ≠ id) :
    ∃ got' c', Flow (past.filter fun t => !t.leaves other) got' c' ∧ seat id c' got' = seat id c got := by
  obtain ⟨got', c', hflow, -⟩ := h.without_leaving other
  exact ⟨got', c', hflow, h.seat_eq_of_concerns hflow (filter_concerns_leaves hother past)⟩

end Wayfind.Connection
