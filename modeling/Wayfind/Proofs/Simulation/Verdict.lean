/-
What a race comes to.

The messages that the branches have sent, in order, decide what a race comes to: the first
handle, or when all have failed the last failure (`ruling`).  The operation holds back until it is
decided, and says so when it is (`Listening.goes`).  `Standing` follows a tale: as long as the
operation runs it has read failures only and waits for the branches that are left, and what it has
ended with is decided for good (`standing_of_tale`).
-/
import Wayfind.Proofs.Simulation.Contest

namespace Wayfind.Simulation

open Activity (Token Inbox Request Duty Timeline Crowd Ending Member Tale Exchange Comes Aloof Closed
  sentTo takenFrom)
open Activity.Timeline (perform advance resume runTask trail onward taskTrail canResume)
open PageSide (Action)

variable {patience : Nat} {α : Type} {k : Inbox}

/-! ### Failures -/

theorem firstFound_append (ms more : List (Except Error Handle)) :
    firstFound (ms ++ more) = (firstFound ms).or (firstFound more) := by
  unfold firstFound
  rw [List.findSome?_append]

theorem firstFound_failures (es : List Error) : firstFound (es.map .error) = none := by
  induction es with
  | nil => rfl
  | cons e es ih => exact ih

theorem firstFound_past_failures (es : List Error) (h : Handle) (more : List (Except Error Handle)) :
    firstFound (es.map .error ++ .ok h :: more) = some h := by
  rw [firstFound_append, firstFound_failures]
  rfl

/-- Before the first handle there are failures only. -/
theorem failures_or_found (ms : List (Except Error Handle)) :
    (∃ es : List Error, ms = es.map .error) ∨
      ∃ (es : List Error) (h : Handle) (more : List (Except Error Handle)),
        ms = es.map .error ++ .ok h :: more := by
  induction ms with
  | nil => exact Or.inl ⟨[], rfl⟩
  | cons m ms ih =>
    cases m with
    | ok h => exact Or.inr ⟨[], h, ms, rfl⟩
    | error e =>
      rcases ih with ⟨es, rfl⟩ | ⟨es, h, more, rfl⟩
      · exact Or.inl ⟨e :: es, rfl⟩
      · exact Or.inr ⟨e :: es, h, more, rfl⟩

/-- What a race with so many branches comes to when they have sent these messages; nothing, as long
as it has to wait. -/
def ruling (n : Nat) (sent : List (Except Error Handle)) : Option (Except Error Handle) :=
  match firstFound sent with
  | some h => some (.ok h)
  | none => if sent.length = n then sent.getLast? else none

section Ruling

variable {n : Nat} {sent : List (Except Error Handle)}

theorem ruling_of_failures (es : List Error) :
    ruling n (es.map .error) = if es.length = n then es.getLast?.map .error else none := by
  unfold ruling
  rw [firstFound_failures, List.length_map, List.getLast?_map]

theorem ruling_eq_ok {h : Handle} : ruling n sent = some (.ok h) ↔ firstFound sent = some h := by
  rcases failures_or_found sent with ⟨es, rfl⟩ | ⟨es, w, more, rfl⟩
  · rw [ruling_of_failures, firstFound_failures]
    split
    · cases es.getLast? <;> simp
    · simp
  · unfold ruling
    rw [firstFound_past_failures]
    simp

end Ruling

/-! ### Hearing what has come -/

/-- Meanwhile these messages were taken out of the inbox, and none was put into it. -/
structure Heard {World World' : Type} (k : Inbox) (tl : Timeline side.signature World)
    (said : List (Exchange side.signature)) (after : Timeline side.signature World')
    (heard : List side.signature.Message) : Prop where
  taken : takenFrom k said = heard
  opened : ¬ Closed k said
  messages : tl.messages k = heard ++ after.messages k
  traffic : traffic k after + heard.length = traffic k tl
  size : after.inboxes.size = tl.inboxes.size

section Hearing

variable {tl after : Timeline side.signature (recording patience).World} {n : Nat}

theorem Heard.cons {mid : Timeline side.signature (recording patience).World}
    {said : List (Exchange side.signature)} {heard : List side.signature.Message}
    {m : side.signature.Message} (hp : perform (recording patience) tl (.take k) = some (m, mid))
    (h : Heard k mid said after heard) : Heard k tl (⟨.take k, m⟩ :: said) after (m :: heard) := by
  obtain ⟨hmessages, htraffic⟩ := traffic_take hp
  have hsize : mid.inboxes.size = tl.inboxes.size := by
    cases Timeline.performs hp with
    | take => exact Array.size_modify ..
  refine ⟨?_, ?_, ?_, ?_, h.size.trans hsize⟩
  · rw [Activity.takenFrom_cons, h.taken]
    exact congrArg (· ++ heard) (if_pos rfl)
  · rw [Activity.closed_cons]
    exact not_or.mpr ⟨id, h.opened⟩
  · exact hmessages.trans (congrArg (m :: ·) h.messages)
  · rw [← htraffic, ← h.traffic, List.length_cons, Nat.cast_succ, add_assoc]

/-- What is left to come when so many messages were heard. -/
theorem Heard.traffic_le {said : List (Exchange side.signature)} {heard : List side.signature.Message}
    (h : Heard k tl said after heard) (hle : Simulation.traffic k tl ≤ ↑(n + heard.length)) :
    Simulation.traffic k after ≤ n := by
  rw [← h.traffic, Nat.cast_add] at hle
  exact (ENat.add_le_add_iff_right (ENat.natCast_ne_top _)).mp hle

theorem perform_take {m : Except Error Handle} {more : List (Except Error Handle)}
    (hm : tl.messages k = m :: more) :
    ∃ mid, perform (recording patience) tl (.take k) = some (m, mid) ∧ mid.messages k = more := by
  obtain ⟨mid, hp⟩ : ∃ mid, perform (recording patience) tl (.take k) = some (m, mid) := by
    simp only [perform, hm]
    exact ⟨_, rfl⟩
  exact ⟨mid, hp, (List.cons.inj ((traffic_take hp).1.symm.trans hm)).2⟩

/-- A race passes over failures, and keeps the last one in mind. -/
theorem comes_failures (duties : List (Duty side.signature)) (last : Option Error) {es : List Error}
    {more : List (Except Error Handle)} (hle : es.length ≤ n)
    (hm : tl.messages k = es.map .error ++ more) :
    ∃ said after, Comes (recording patience)
        (Activity.protect duties (Race.firstHandle (B := side) k n last).outcome) tl said
        (Activity.protect duties
          (Race.firstHandle (B := side) k (n - es.length) (es.getLast?.or last)).outcome) after ∧
      Heard k tl said after (es.map .error) ∧ after.messages k = more := by
  induction es generalizing n last tl with
  | nil => exact ⟨[], tl, .stays _ _, ⟨rfl, Activity.not_closed_nil k, rfl, add_zero _, rfl⟩, hm⟩
  | cons e es ih =>
    obtain ⟨n, rfl⟩ : ∃ n', n = n' + 1 := Nat.exists_eq_add_one.mpr (Nat.lt_of_lt_of_le
      (Nat.succ_pos _) hle)
    obtain ⟨mid, hp, hmid⟩ := perform_take hm
    obtain ⟨said, after, hcomes, hheard, hmore⟩ := ih (some e) (Nat.le_of_succ_le_succ hle) hmid
    refine ⟨⟨.take k, .error e⟩ :: said, after, ?_, hheard.cons hp, hmore⟩
    have hlast : (e :: es).getLast?.or last = es.getLast?.or (some e) := by
      rw [List.getLast?_cons]
      cases es.getLast? <;> rfl
    rw [List.length_cons, Nat.add_sub_add_right, hlast]
    exact .asks hp hcomes

end Hearing

section Listening

/-- Who has nothing to do with an inbox leaves it as it is, when nothing is to come. -/
theorem silent_advance {p : side.Task α} {tl : Timeline side.signature (recording patience).World}
    (hp : Silent k p) (htraffic : traffic k tl ≤ ↑(0 : ℕ)) (hmade : k < tl.inboxes.size) :
    traffic k (advance (recording patience) p tl).2 ≤ 0 ∧ Aloof k (trail (recording patience) p tl) := by
  constructor
  · have hsum : traffic k tl.forget + outgoing k p ≤ ↑(0 : ℕ) := by
      rw [traffic_forget]
      exact (add_le_add htraffic hp).trans_eq (add_zero _)
    have hafter := advance_traffic (Or.inl hmade) hsum
    rw [Timeline.advance_forget] at hafter
    rw [← traffic_forget]
    exact le_self_add.trans hafter
  · exact trail_aloof (Or.inl hmade) (ne_top_of_le_ne_top ENat.zero_ne_top hp)

variable {tl : Timeline side.signature (recording patience).World} {n : Nat}
  {Q : Except Error Handle → α → Prop} {p : side.Task α} {es : List Error}

/-- Whoever listens to a race ends with the first handle that has come. -/
theorem Listens.found (h : Listens patience k n Q p) (htraffic : traffic k tl ≤ n) {w : Handle}
    {more : List (Except Error Handle)} (hm : tl.messages k = es.map .error ++ .ok w :: more) :
    ∃ a after, advance (recording patience) p tl = (.done a, after) ∧ Q (.ok w) a := by
  obtain ⟨duties, last, rest, rfl, hends, -⟩ := h
  have hlen : es.length + 1 ≤ n := by
    have hle : ((tl.messages k).length : ℕ∞) ≤ n := le_self_add.trans htraffic
    have hcount : (es.map .error ++ .ok w :: more : List (Except Error Handle)).length =
        es.length + (more.length + 1) := by
      rw [List.length_append, List.length_map, List.length_cons]
    rw [show (tl.messages k).length = es.length + (more.length + 1) from
      (congrArg List.length hm).trans hcount] at hle
    have hcome := ENat.natCast_le_natCast.mp hle
    omega
  obtain ⟨left, hleft⟩ : ∃ left, n - es.length = left + 1 :=
    Nat.exists_eq_add_one.mpr (Nat.sub_pos_of_lt hlen)
  obtain ⟨said, mid, hcomes, -, hmid⟩ := comes_failures duties last (Nat.le_of_lt hlen) hm
  obtain ⟨next, hp, -⟩ := perform_take hmid
  rw [hleft] at hcomes
  obtain ⟨said', a, after, hrest, hq⟩ := hends (.ok (w, left)) next
  have hwon : Comes (recording patience) (Activity.bind (Activity.protect duties
      (Race.firstHandle (B := side) k (left + 1) (es.getLast?.or last)).outcome) rest) mid
      (⟨.take k, .ok w⟩ :: said') (.done a) after := .asks hp hrest
  exact ⟨a, after, (hcomes.bind rest).advance_eq.trans hwon.advance_eq, hq⟩

/-- Whoever listens to a race ends with the last failure when nothing else has come; nothing is sent
any more, then. -/
theorem Listens.failed (h : Listens patience k n Q p) (htraffic : traffic k tl ≤ n)
    (hm : tl.messages k = es.map .error) (hn : es.length = n) {e : Error} (he : es.getLast? = some e)
    (hmade : k < tl.inboxes.size) :
    ∃ a after, advance (recording patience) p tl = (.done a, after) ∧ Q (.error e) a ∧
      traffic k after ≤ 0 ∧ sentTo k (trail (recording patience) p tl) = [] := by
  obtain ⟨duties, last, rest, rfl, hends, hquiet⟩ := h
  obtain ⟨said, mid, hcomes, hheard, -⟩ :=
    comes_failures duties last hn.le (hm.trans (List.append_nil _).symm)
  rw [hn, Nat.sub_self, he] at hcomes
  have hlost : Comes (recording patience) _ tl said (rest (.ok (.error (some e)))) mid := hcomes.bind rest
  obtain ⟨more, a, after, hrest, hq⟩ := hends (.error (some e)) mid
  have hsilent := hquiet (some e)
  have hmid : traffic k mid ≤ ↑(0 : ℕ) := by
    refine hheard.traffic_le (htraffic.trans_eq (congrArg Nat.cast ?_))
    rw [Nat.zero_add, ← hn]
    exact (List.length_map _).symm
  obtain ⟨htraffic', haloof⟩ := silent_advance hsilent hmid (hheard.size ▸ hmade)
  rw [hrest.advance_eq] at htraffic'
  refine ⟨a, after, hlost.advance_eq.trans hrest.advance_eq, hq, htraffic', ?_⟩
  have hopen : ¬ Closed k (said ++ trail (recording patience) (rest (.ok (.error (some e)))) mid) := by
    rw [Activity.closed_append]
    exact not_or.mpr ⟨hheard.opened, haloof.2⟩
  rw [hlost.trail_eq]
  have hmail := Activity.advance_mail (k := k) _ tl (hlost.trail_eq ▸ hopen)
  rw [hlost.trail_eq, hlost.advance_eq, hrest.advance_eq, Activity.takenFrom_append, haloof.1,
    hheard.taken, messages_of_traffic htraffic', List.append_nil, List.append_nil, hm] at hmail
  exact List.append_cancel_left (hmail.trans (List.append_nil _).symm)

/-- Whoever listens to a race waits for the rest when failures have come, but not from all. -/
theorem Listens.waits (h : Listens patience k n Q p) (hm : tl.messages k = es.map .error)
    (hn : es.length < n) :
    ∃ p' said after, advance (recording patience) p tl = (p', after) ∧
      trail (recording patience) p tl = said ∧ Heard k tl said after (es.map .error) ∧
      Listens patience k (n - es.length) Q p' := by
  obtain ⟨duties, last, rest, rfl, hends, hquiet⟩ := h
  obtain ⟨said, mid, hcomes, hheard, hempty⟩ :=
    comes_failures duties last hn.le (hm.trans (List.append_nil _).symm)
  obtain ⟨left, hleft⟩ : ∃ left, n - es.length = left + 1 :=
    Nat.exists_eq_add_one.mpr (Nat.sub_pos_of_lt hn)
  rw [hleft] at hcomes ⊢
  have hnone : perform (recording patience) mid (.take k) = none := by
    simp only [perform, hempty]
  set waiting : side.Task α := Activity.bind (Activity.protect duties
    (Race.firstHandle (B := side) k (left + 1) (es.getLast?.or last)).outcome) rest
  have hcomes : Comes (recording patience) _ tl said waiting mid := hcomes.bind rest
  obtain ⟨hstill, hsilent⟩ : advance (recording patience) waiting mid = (waiting, mid) ∧
      trail (recording patience) waiting mid = [] := Timeline.stuck hnone
  refine ⟨waiting, said, mid, hcomes.advance_eq.trans hstill, ?_, hheard, duties, _, rest, rfl, hends,
    hquiet⟩
  rw [hcomes.trail_eq, hsilent, List.append_nil]

end Listening

/-! ### Where a race stands -/

section Standing

/-- An operation on a race with so many branches waits for the messages that are left, and has read
failures only. -/
structure Listening (patience : Nat) (k : Inbox) (n left : Nat)
    (p : side.Task (Except Error (Except Error Handle × Bool)))
    (tl : Timeline side.signature (recording patience).World) (log : List (Exchange side.signature)) :
    Prop where
  listens : Listens patience k left Reports p
  waits : 0 < left
  traffic : traffic k tl ≤ left
  failed : ∃ es : List Error, takenFrom k log = es.map .error ∧ es.length + left = n
  made : k < tl.inboxes.size
  opened : ¬ Closed k log

/-- It is decided what a race with so many branches has come to; after a failure nothing more is to
come. -/
structure Decided (k : Inbox) (n : Nat) (r : Except Error Handle)
    (tl : Timeline side.signature (recording patience).World) (log : List (Exchange side.signature)) :
    Prop where
  ruling : ruling n (sentTo k log) = some r
  made : k < tl.inboxes.size
  silent : ∀ e, r = .error e → Simulation.traffic k tl ≤ 0

variable {n left : Nat} {p : side.Task (Except Error (Except Error Handle × Bool))}
  {tl : Timeline side.signature (recording patience).World} {log : List (Exchange side.signature)}

theorem Listens.asks {Q : Except Error Handle → α → Prop} {p : side.Task α}
    (h : Listens patience k n Q p) (hn : 0 < n) :
    ∃ duties next stop, p = .ask (.take k) [] duties next stop := by
  obtain ⟨duties, last, rest, rfl, -, -⟩ := h
  obtain ⟨n, rfl⟩ := Nat.exists_eq_add_one.mpr hn
  exact ⟨_, _, _, rfl⟩

/-- Whoever reads from an inbox can go on when something lies in it. -/
theorem Listens.canResume {Q : Except Error Handle → α → Prop} {p : side.Task α}
    (h : Listens patience k n Q p) (hn : 0 < n) (hm : tl.messages k ≠ []) :
    Timeline.canResume tl p = true := by
  obtain ⟨duties, next, stop, rfl⟩ := h.asks hn
  have hsome : (tl.messages k).isEmpty = false := by
    rw [← Bool.not_eq_true, List.isEmpty_iff]
    exact hm
  simp only [Timeline.canResume, hsome, Bool.not_false, Bool.or_true]

/-- Whoever listens is not interrupted. -/
theorem Listening.onward_eq (h : Listening patience k n left p tl log) : onward tl p = p := by
  obtain ⟨duties, next, stop, rfl⟩ := h.listens.asks h.waits
  exact Timeline.onward_of_watched tl rfl

theorem Listening.still {tl' : Timeline side.signature (recording patience).World}
    (h : Listening patience k n left p tl log) (htraffic : Simulation.traffic k tl' = Simulation.traffic k tl)
    (hinboxes : tl'.inboxes = tl.inboxes) : Listening patience k n left p tl' log :=
  ⟨h.listens, h.waits, htraffic.le.trans h.traffic, h.failed, hinboxes ▸ h.made, h.opened⟩

theorem Decided.still {tl' : Timeline side.signature (recording patience).World}
    {r : Except Error Handle} (h : Decided k n r tl log)
    (htraffic : Simulation.traffic k tl' = Simulation.traffic k tl)
    (hinboxes : tl'.inboxes = tl.inboxes) : Decided k n r tl' log :=
  ⟨h.ruling, hinboxes ▸ h.made, fun e he => htraffic.le.trans (h.silent e he)⟩

/-- It is decided what the race comes to, and the operation goes on at once and ends with that. -/
def EndsAtOnce (patience : Nat) (k : Inbox) (n : Nat)
    (p : side.Task (Except Error (Except Error Handle × Bool)))
    (tl : Timeline side.signature (recording patience).World) (log : List (Exchange side.signature)) :
    Prop :=
  ∃ r cancelled after, ruling n (sentTo k log) = some r ∧ Timeline.canResume tl p = true ∧
    advance (recording patience) p tl = (.done (.ok (r, cancelled)), after) ∧
    Decided k n r after (log ++ trail (recording patience) p tl)

/-- It is not decided what the race comes to, and the operation does not end. -/
def WaitsOn (patience : Nat) (k : Inbox) (n : Nat)
    (p : side.Task (Except Error (Except Error Handle × Bool)))
    (tl : Timeline side.signature (recording patience).World) (log : List (Exchange side.signature)) :
    Prop :=
  ∃ p' after left, ruling n (sentTo k log) = none ∧ advance (recording patience) p tl = (p', after) ∧
    Listening patience k n left p' after (log ++ trail (recording patience) p tl)

namespace Listening

/-- Whoever reads failures goes on to listen, when there are more branches. -/
theorem hears (h : Listening patience k n left p tl log) {es : List Error}
    (hm : tl.messages k = es.map .error) (hsome : es.length < left) :
    ∃ p' after, advance (recording patience) p tl = (p', after) ∧
      Listening patience k n (left - es.length) p' after
        (log ++ trail (recording patience) p tl) := by
  obtain ⟨read, hread, hcount⟩ := h.failed
  obtain ⟨p', said, after, hadvance, rfl, hheard, hlistens⟩ := h.listens.waits hm hsome
  refine ⟨p', after, hadvance, hlistens, Nat.sub_pos_of_lt hsome, ?_, ⟨read ++ es, ?_, ?_⟩, ?_, ?_⟩
  · refine hheard.traffic_le (h.traffic.trans_eq (congrArg Nat.cast ?_))
    exact (Nat.sub_add_cancel hsome.le).symm.trans (congrArg _ (List.length_map _).symm)
  · rw [Activity.takenFrom_append, hread, hheard.taken]
    exact List.map_append.symm
  · rw [List.length_append]
    omega
  · rw [hheard.size]
    exact h.made
  · rw [Activity.closed_append]
    exact not_or.mpr ⟨h.opened, hheard.opened⟩

variable (h : Listening patience k n left p tl log)
  (hsent : sentTo k log = takenFrom k log ++ tl.messages k)

include h hsent

theorem ends_of_found {es : List Error} {w : Handle} {more : List (Except Error Handle)}
    (hm : tl.messages k = es.map .error ++ .ok w :: more) : EndsAtOnce patience k n p tl log := by
  obtain ⟨read, hread, -⟩ := h.failed
  have hfound : firstFound (sentTo k log) = some w := by
    have hjoin : (read.map .error ++ (es.map .error ++ .ok w :: more) : List (Except Error Handle)) =
        (read ++ es).map .error ++ .ok w :: more := by
      rw [List.map_append, List.append_assoc]
    have hall : sentTo k log = (read ++ es).map .error ++ .ok w :: more := by
      rw [hsent, hread, hm]
      exact hjoin
    exact (congrArg firstFound hall).trans (firstFound_past_failures _ w more)
  have hsome : tl.messages k ≠ [] := fun hnil =>
    absurd (hm.symm.trans hnil) (List.append_ne_nil_of_right_ne_nil _ (List.cons_ne_nil _ _))
  obtain ⟨_, after, hadvance, cancelled, rfl⟩ := h.listens.found h.traffic hm
  refine ⟨.ok w, cancelled, after, ruling_eq_ok.mpr hfound, h.listens.canResume h.waits hsome, hadvance,
    ruling_eq_ok.mpr ?_, ?_, nofun⟩
  · rw [Activity.sentTo_append]
    exact (firstFound_append _ _).trans (by rw [hfound]; rfl)
  · have hsize := (Timeline.advance_instant (B := recording patience) p tl).inboxes
    rw [hadvance] at hsize
    exact Nat.lt_of_lt_of_le h.made hsize

/-- As long as there are only failures, their number decides. -/
theorem ruling_eq {es : List Error} (hm : tl.messages k = es.map .error) :
    es.length ≤ left ∧
      ruling n (sentTo k log) = if es.length = left then es.getLast?.map .error else none := by
  obtain ⟨read, hread, hcount⟩ := h.failed
  have hcome : es.length ≤ left := by
    have hle : ((tl.messages k).length : ℕ∞) ≤ left := le_self_add.trans h.traffic
    rw [hm] at hle
    exact (List.length_map _).symm.le.trans (ENat.natCast_le_natCast.mp hle)
  have hall : sentTo k log = (read ++ es).map .error := by
    rw [hsent, hread, hm]
    exact List.map_append.symm
  refine ⟨hcome, ((congrArg (ruling n) hall).trans (ruling_of_failures _)).trans ?_⟩
  rw [List.length_append, List.getLast?_append]
  by_cases hlast : es.length = left
  · have hne : es ≠ [] := List.ne_nil_of_length_pos (hlast ▸ h.waits)
    rw [if_pos (by omega), if_pos hlast, List.getLast?_eq_some_getLast hne, Option.some_or]
  · rw [if_neg (by omega), if_neg hlast]

theorem ends_of_failed {es : List Error} (hm : tl.messages k = es.map .error) (hlast : es.length = left) :
    EndsAtOnce patience k n p tl log := by
  have hne : es ≠ [] := List.ne_nil_of_length_pos (hlast ▸ h.waits)
  have he := List.getLast?_eq_some_getLast hne
  have hrules := (h.ruling_eq hsent hm).2
  rw [if_pos hlast, he] at hrules
  have hrules : ruling n (sentTo k log) = some (.error (es.getLast hne)) := hrules
  have hsome : tl.messages k ≠ [] := fun hnil => hne (List.map_eq_nil_iff.mp (hm.symm.trans hnil))
  obtain ⟨_, after, hadvance, ⟨cancelled, rfl⟩, htraffic, hsilent⟩ :=
    h.listens.failed h.traffic hm hlast he h.made
  refine ⟨.error (es.getLast hne), cancelled, after, hrules, h.listens.canResume h.waits hsome, hadvance,
    ?_, ?_, fun _ _ => htraffic⟩
  · rwa [Activity.sentTo_append, hsilent, List.append_nil]
  · have hsize := (Timeline.advance_instant (B := recording patience) p tl).inboxes
    rw [hadvance] at hsize
    exact Nat.lt_of_lt_of_le h.made hsize

theorem waits_of_failed {es : List Error} (hm : tl.messages k = es.map .error) (hsome : es.length < left) :
    WaitsOn patience k n p tl log := by
  have hrules := (h.ruling_eq hsent hm).2
  rw [if_neg (Nat.ne_of_lt hsome)] at hrules
  obtain ⟨p', after, hadvance, hlistens⟩ := h.hears hm hsome
  exact ⟨p', after, left - es.length, hrules, hadvance, hlistens⟩

/-- An operation ends as soon as it is decided what its race comes to, and with that. -/
theorem goes : EndsAtOnce patience k n p tl log ∨ WaitsOn patience k n p tl log := by
  rcases failures_or_found (tl.messages k) with ⟨es, hm⟩ | ⟨es, w, more, hm⟩
  · rcases Nat.lt_or_eq_of_le (h.ruling_eq hsent hm).1 with hsome | hlast
    · exact Or.inr (h.waits_of_failed hsent hm hsome)
    · exact Or.inl (h.ends_of_failed hsent hm hlast)
  · exact Or.inl (h.ends_of_found hsent hm)

end Listening

/-- What goes on beside an operation that listens does not matter to it. -/
theorem Listening.runTask (h : Listening patience k n left p tl log) (id : Nat) :
    Listening patience k n left p (runTask (recording patience) tl id)
      (log ++ taskTrail (recording patience) tl id) := by
  obtain ⟨read, hread, hcount⟩ := h.failed
  obtain ⟨htaken, hopen⟩ := taskTrail_aloof id (Or.inl h.made) h.traffic
  refine ⟨h.listens, h.waits, runTask_recorded id h.made h.traffic, ⟨read, ?_, hcount⟩,
    Nat.lt_of_lt_of_le h.made (Timeline.runTask_instant (B := recording patience) tl id).inboxes, ?_⟩
  · rw [Activity.takenFrom_append, htaken, List.append_nil, hread]
  · rw [Activity.closed_append]
    exact not_or.mpr ⟨h.opened, hopen⟩

/-- What has been decided remains so. -/
theorem Decided.runTask {r : Except Error Handle} (h : Decided k n r tl log) (id : Nat) :
    Decided k n r (runTask (recording patience) tl id)
      (log ++ taskTrail (recording patience) tl id) := by
  have hmade := Nat.lt_of_lt_of_le h.made
    (Timeline.runTask_instant (B := recording patience) tl id).inboxes
  cases r with
  | ok w =>
    refine ⟨ruling_eq_ok.mpr ?_, hmade, nofun⟩
    rw [Activity.sentTo_append]
    exact firstFound_of_prefix (List.prefix_append _ _) (ruling_eq_ok.mp h.ruling)
  | error e =>
    have hover : traffic k tl ≤ ↑(0 : ℕ) := h.silent e rfl
    have hafter := runTask_recorded id h.made hover
    obtain ⟨htaken, hopen⟩ := taskTrail_aloof id (Or.inl h.made) hover
    have hmail := Activity.runTask_mail tl id hopen
    rw [htaken, messages_of_traffic hover, messages_of_traffic hafter] at hmail
    refine ⟨?_, hmade, fun _ _ => hafter⟩
    rw [Activity.sentTo_append, show sentTo k _ = [] from hmail, List.append_nil]
    exact h.ruling

/-- Where an operation on a race stands that was started alone: it listens, or it has ended with what
was decided, or it was dropped. -/
inductive Standing (patience : Nat) (k : Inbox) (n : Nat) :
    Crowd (recording patience) Unit (Except Error (Except Error Handle × Bool)) →
      List (Exchange side.signature) → Prop
  | listens {c : Crowd (recording patience) Unit (Except Error (Except Error Handle × Bool))}
      {log : List (Exchange side.signature)} (m : Member Unit side.signature _) (left : Nat)
      (hrunning : c.running = [m]) (hended : c.ended = [])
      (h : Listening patience k n left m.activity c.timeline log) : Standing patience k n c log
  | ended {c : Crowd (recording patience) Unit (Except Error (Except Error Handle × Bool))}
      {log : List (Exchange side.signature)} (e : Ending Unit side.signature _ _)
      (r : Except Error Handle) (cancelled : Bool) (hrunning : c.running = []) (hended : c.ended = [e])
      (houtcome : e.outcome = .ok (r, cancelled)) (h : Decided k n r c.timeline log) :
      Standing patience k n c log
  | dropped {c : Crowd (recording patience) Unit (Except Error (Except Error Handle × Bool))}
      {log : List (Exchange side.signature)} (hrunning : c.running = []) (hended : c.ended = []) :
      Standing patience k n c log

variable {contest : Contest} {start : Timeline side.signature (recording patience).World}
  {c : Crowd (recording patience) Unit (Except Error (Except Error Handle × Bool))}

theorem Listening.placed (h : Listening patience k n left p tl log) (hrunning : c.running = [])
    (hended : c.ended = []) (who : Unit) (began : Nat) :
    Standing patience k n (c.place who began (p, tl)) log := by
  obtain ⟨duties, next, stop, rfl⟩ := h.listens.asks h.waits
  refine .listens ⟨who, began, _⟩ left ?_ hended h
  show c.running ++ _ = _
  rw [hrunning]
  rfl

theorem Decided.placed {r : Except Error Handle} (h : Decided k n r tl log) (hrunning : c.running = [])
    (hended : c.ended = []) (who : Unit) (began : Nat) (cancelled : Bool) :
    Standing patience k n (c.place who began (.done (.ok (r, cancelled)), tl)) log := by
  refine .ended ⟨who, began, _, tl⟩ r cancelled hrunning ?_ rfl h
  show c.ended ++ _ = _
  rw [hended]
  rfl

/-- From its start an operation listens to its race. -/
theorem standing_enters (hne : contest.branches ≠ []) (hk : start.inboxes.size = k)
    (hfresh : traffic k start ≤ 0) (c : Crowd (recording patience) Unit _) (hrunning : c.running = [])
    (hended : c.ended = []) :
    Standing patience k contest.branches.length
      (c.place () start.clock (advance (recording patience) contest.activity start))
      (trail (recording patience) contest.activity start) := by
  obtain ⟨p, mid, ⟨said, hcomes, haloof⟩, hlistens, htraffic, hmade, hempty⟩ := opens hne hk hfresh
  have hpos : 0 < contest.branches.length := List.length_pos_iff.mpr hne
  have hfirst : Listening patience k contest.branches.length contest.branches.length p mid said :=
    ⟨hlistens, hpos, htraffic, ⟨[], haloof.1, Nat.zero_add _⟩, hmade, haloof.2⟩
  have hnothing : mid.messages k = ([] : List Error).map .error := hempty
  obtain ⟨p', after, hadvance, h⟩ := hfirst.hears hnothing hpos
  rw [hcomes.advance_eq, hcomes.trail_eq, hadvance]
  exact h.placed hrunning hended () _

/-- However an operation on a race goes, it stands as is said. -/
theorem standing_of_tale (hne : contest.branches ≠ []) (hk : start.inboxes.size = k)
    (hfresh : traffic k start ≤ 0) {log : List (Exchange side.signature)}
    (h : Tale (recording patience) contest.activity start c log) :
    Standing patience k contest.branches.length c log := by
  have hstart : start.messages k = [] := messages_of_traffic hfresh
  induction h with
  | enters => exact standing_enters hne hk hfresh _ rfl rfl
  | @task c log htale id hready ih =>
    set queued : Timeline side.signature (recording patience).World :=
      { c.timeline with ready := c.timeline.ready.erase id }
    cases ih with
    | listens m left hrunning hended h =>
      have hqueued : Listening patience k _ left m.activity queued log := h.still rfl rfl
      exact .listens m left hrunning hended (hqueued.runTask id)
    | ended e r cancelled hrunning hended houtcome h =>
      have hqueued : Decided k _ r queued log := h.still rfl rfl
      exact .ended e r cancelled hrunning hended houtcome (hqueued.runTask id)
    | dropped hrunning hended => exact .dropped hrunning hended
  | @go c log htale m hmem hresume ih =>
    cases ih with
    | listens m' left hrunning hended h =>
      obtain rfl : m' = m := (List.cons.inj (hrunning.symm.trans hmem)).1
      rw [Timeline.resume_eq, h.onward_eq]
      rcases h.goes (htale.sent_eq hstart h.opened) with
        ⟨r, cancelled, after, -, -, hadvance, hdecided⟩ | ⟨p', after, left', -, hadvance, hlistens⟩
      · rw [hadvance]
        exact hdecided.placed (c := { c with running := [] }) rfl hended _ _ cancelled
      · rw [hadvance]
        exact hlistens.placed (c := { c with running := [] }) rfl hended _ _
    | ended e r cancelled hrunning => exact absurd (hrunning.symm.trans hmem) nofun
    | dropped hrunning => exact absurd (hrunning.symm.trans hmem) nofun
  | @wait c log htale time hready hstuck hle htasks hrunning ih =>
    cases ih with
    | listens m left hrunning hended h => exact .listens m left hrunning hended (h.still rfl rfl)
    | ended e r cancelled hrunning hended houtcome h =>
      exact .ended e r cancelled hrunning hended houtcome (h.still rfl rfl)
    | dropped hrunning hended => exact .dropped hrunning hended
  | @drop c log htale m hmem ih =>
    cases ih with
    | listens m' left hrunning hended h => exact .dropped rfl hended
    | ended e r cancelled hrunning => exact absurd (hrunning.symm.trans hmem) nofun
    | dropped hrunning hended => exact absurd (hrunning.symm.trans hmem) nofun

end Standing

end Wayfind.Simulation
