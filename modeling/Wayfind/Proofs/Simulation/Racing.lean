/-
The stages of an operation on a race.

An attempt on a race makes an inbox, forks a branch for every locator and reads as many
messages as it has forked branches, unless one of them is a handle.  `Stage` says where it
stands, with the number of messages that may still come; `Heads` says of an activity that
it goes from stage to stage, and how it ends.  Whatever happens beside it, there are never
more messages in its inbox, or on their way, than it goes on to read (`Stage.Holds`).  So when
a handle is among them, the race takes it, however many failures have come before
(`advance_of_found`).
-/
import Wayfind.Proofs.Activity.Protocol
import Wayfind.Proofs.Simulation.Scene
import Wayfind.Proofs.Simulation.Traffic

namespace Wayfind.Simulation

open Activity (Token Inbox Request Timeline Asks Follows KeptByMoves follows_protect follows_request
  follows_ofExcept)
open Activity.Timeline (perform advance resume runTask)
open PageSide (Action)

variable {patience : Nat} {α β : Type}

/-! ### Stages -/

/-- Where an operation on a race stands. -/
inductive Stage where
  /-- No race is on. -/
  | apart
  /-- Branches look, and so many messages may come into the inbox at most. -/
  | gathering (inbox : Inbox) (count : Nat)
  /-- A branch has found a handle. -/
  | won (inbox : Inbox) (h : Handle)

/-- The inbox that a race has made. -/
def Stage.inbox : Stage → Option Inbox
  | apart => none
  | gathering k _ => some k
  | won k _ => some k

/-- A request that is made at a stage, and the stages that its answers lead to. -/
inductive Stage.Moves : Stage → (r : Request side.signature) → (r.Answer → Stage) → Prop
  | modest {r : Request side.signature} (h : Modest r) : Moves .apart r fun _ => .apart
  | expire (i : Interrupt) (ended : Token) : Moves .apart (.fork (.expire i ended)) fun _ => .apart
  | cancel (t : Token) : Moves .apart (.cancel t) fun _ => .apart
  | begins : Moves .apart .newInbox fun inbox => .gathering inbox 0
  | child (k : Inbox) (n : Nat) (parent : Option Token) :
      Moves (.gathering k n) (.newToken parent) fun _ => .gathering k n
  | branch (k : Inbox) (n : Nat) (l : Locator Unit) (i : Interrupt) :
      Moves (.gathering k n) (.fork (.branch l i k)) fun _ => .gathering k (n + 1)
  | reads (k : Inbox) (n : Nat) : Moves (.gathering k (n + 1)) (.take k) fun
      | .ok h => .won k h
      | .error _ => .gathering k n
  | fails (k : Inbox) (t : Token) : Moves (.gathering k 0) (.cancel t) fun _ => .apart
  | cancels (k : Inbox) (h : Handle) (t : Token) : Moves (.won k h) (.cancel t) fun _ => .won k h
  | drains (k : Inbox) (h : Handle) (count : Nat) :
      Moves (.won k h) (.fork (.drain k count)) fun _ => .won k h

/-- The activity, begun at a stage, goes from stage to stage, and ends as it should. -/
abbrev Heads (Q : Stage → α → Prop) : Stage → side.Task α → Prop := Follows Stage.Moves Q

section Rules

variable {st : Stage}

theorem heads_of_modest {p : side.Task α} (hp : Asks Modest p) :
    Heads (fun st _ => st = .apart) .apart p := by
  induction p with
  | done a => exact rfl
  | ask r ws duties next stop ihn ihs =>
    exact ⟨_, .modest hp.1.1, fun a => ihn a (hp.2.1 a), fun t h => ihs t h (hp.2.2 t h)⟩

/-- What only looks and waits leaves a race that is not on alone. -/
theorem Asking.headsThen {Q : Stage → Except Error β → Prop} {a : side.Action α}
    {f : α → side.Action β} (ha : Asking Modest a) (hf : ∀ v, Heads Q .apart (f v).outcome)
    (herror : ∀ e, Q .apart (.error e)) : Heads Q .apart (a >>= f).outcome := by
  refine (heads_of_modest ha).andThen ?_ ?_
  · rintro _ v rfl
    exact hf v
  · rintro _ e rfl
    exact herror e

end Rules

/-! ### An operation on a race -/

/-- How an operation on a race ends: with the handle of the winner, or with an error when there is
none. -/
def Yields (f : Handle → β) : Stage → Except Error β → Prop
  | .apart, r => ∃ e, r = .error e
  | .gathering _ _, _ => False
  | .won _ h, r => r = .ok (f h)

theorem heads_firstHandle {Q : Stage → Except Error (Except (Option Error) (Handle × Nat)) → Prop}
    (k : Inbox) (n : Nat) (last : Option Error)
    (hwon : ∀ h left, Q (.won k h) (.ok (.ok (h, left))))
    (hlost : ∀ last, Q (.gathering k 0) (.ok (.error last))) :
    Heads Q (.gathering k n) (Race.firstHandle (B := side) k n last).outcome := by
  induction n generalizing last with
  | zero => exact hlost last
  | succ n ih =>
    refine follows_request (.reads k n) fun (m : Except Error Handle) => ?_
    cases m with
    | ok h => exact hwon h n
    | error e => exact ih (some e)

theorem heads_child {st : Stage} (i : Interrupt)
    (hmoves : st.Moves (.newToken (some i.token)) fun _ => st) :
    Heads (fun st' r => st' = st ∧ ∃ j, r = .ok j) st (i.child : side.Action Interrupt).outcome :=
  follows_request hmoves fun _ => ⟨rfl, _, rfl⟩

theorem heads_forkBranches {Q : Stage → Except Error Unit → Prop} (race : Interrupt) (k : Inbox)
    (n : Nat) (branches : List (Locator Unit)) (hQ : Q (.gathering k (n + branches.length)) (.ok ())) :
    Heads Q (.gathering k n) (Race.forkBranches (B := side) race k branches).outcome := by
  induction branches generalizing n with
  | nil => exact hQ
  | cons l rest ih =>
    have hrest : Q (.gathering k (n + 1 + rest.length)) (.ok ()) := by
      rwa [Nat.add_assoc, Nat.add_comm 1]
    refine (heads_child race (.child k n _)).andThen ?_ ?_
    · rintro _ branch ⟨rfl, -⟩
      exact follows_request (.branch k n l branch) fun _ => ih (n + 1) hrest
    · rintro _ e ⟨-, i, hi⟩
      exact absurd hi nofun

/-- A race yields the handle of a branch, or an error when all branches have failed. -/
theorem heads_race (branches : List (Locator Unit)) (i : Interrupt) :
    Heads (Yields id) .apart (Race.run (B := side) branches i).outcome := by
  unfold Race.run
  split
  · exact ⟨_, rfl⟩
  refine (heads_child i (.modest trivial)).andThen ?_ ?_
  · rintro _ race ⟨rfl, -⟩
    refine follows_request .begins fun (k : Inbox) => ?_
    have hforked : Heads (fun st r => st = .gathering k branches.length ∧ r = .ok ())
        (.gathering k 0) (Race.forkBranches (B := side) race k branches).outcome :=
      heads_forkBranches race k 0 branches ⟨by rw [Nat.zero_add], rfl⟩
    refine hforked.andThen ?_ ?_
    · rintro _ _ ⟨rfl, -⟩
      have hread : Heads (fun st r => (∃ h left, st = .won k h ∧ r = .ok (.ok (h, left))) ∨
          ∃ last, st = .gathering k 0 ∧ r = .ok (.error last)) (.gathering k branches.length)
          ((Race.firstHandle (B := side) k branches.length none).protect
            [.close k, .cancel race.token]).outcome :=
        (follows_protect _).mpr (heads_firstHandle k _ none (fun h left => Or.inl ⟨h, left, rfl, rfl⟩)
          fun last => Or.inr ⟨last, rfl, rfl⟩)
      refine hread.andThen ?_ ?_
      · rintro st winner (⟨h, left, rfl, hok⟩ | ⟨last, rfl, herror⟩)
        · obtain rfl := Except.ok.inj hok
          exact follows_request (.cancels k h _) fun _ => follows_request (.drains k h left) fun _ => rfl
        · obtain rfl := Except.ok.inj herror
          exact follows_request (.fails k _) fun _ => ⟨_, rfl⟩
      · rintro st e (⟨h, left, -, hok⟩ | ⟨last, -, herror⟩)
        · exact absurd hok nofun
        · exact absurd herror nofun
    · rintro _ e ⟨-, he⟩
      exact absurd he nofun
  · rintro _ e ⟨-, j, hj⟩
    exact absurd hj nofun

/-- An operation that goes on with the handle of a race yields what it makes of it. -/
theorem Heads.yields {f : Handle → α} {g : Handle → β} {st : Stage} {a : side.Action α}
    {b : α → side.Action β} (ha : Heads (Yields f) st a.outcome)
    (hb : ∀ h, b (f h) = pure (g h)) : Heads (Yields g) st (a >>= b).outcome := by
  refine ha.andThen (fun st v hst => ?_) fun st e hst => ?_
  · cases st with
    | apart => exact absurd hst fun ⟨_, h⟩ => nomatch h
    | gathering k n => exact absurd hst id
    | won k h =>
      obtain rfl := Except.ok.inj hst
      rw [hb]
      exact rfl
  · cases st with
    | apart => exact ⟨e, rfl⟩
    | gathering k n => exact absurd hst id
    | won k h => exact absurd hst nofun

section Race

variable (patience) (o : Locator.Options) (branches : List (Locator side.Page))

theorem heads_attempt (i : Interrupt) :
    Heads (Yields some) .apart
      ((Locator.race o branches).attempt (browser patience) .find i).outcome := by
  unfold Locator.attempt Locator.resolve
  exact (heads_race branches i).yields fun h => rfl

/-- Attempts go on until one of them yields a handle, or nothing more is to be had. -/
theorem heads_attempts (i : Interrupt) (fuel : Nat) :
    Heads (Yields some) .apart
      ((Locator.race o branches).attempts (browser patience) .find i fuel).outcome := by
  induction fuel with
  | zero => exact ⟨_, .modest trivial, fun e => Empty.elim e, fun t h => absurd h List.not_mem_nil⟩
  | succ fuel ih =>
    refine (heads_attempt patience o branches i).attempt fun st outcome hst => ?_
    cases outcome with
    | ok result =>
      cases st with
      | apart => exact absurd hst fun ⟨_, h⟩ => nomatch h
      | gathering k n => exact absurd hst id
      | won k h => exact hst
    | error e =>
      cases st with
      | apart =>
        refine (modest_interruption i).headsThen (fun interruption => ?_) fun e => ⟨e, rfl⟩
        cases interruption with
        | some e => exact ⟨e, rfl⟩
        | none => exact (modest_pause i).headsThen (fun _ => ih) fun e => ⟨e, rfl⟩
      | gathering k n => exact absurd hst id
      | won k h => exact absurd hst nofun

theorem heads_run (signal : Option Token) :
    Heads (Yields some) .apart ((Locator.race o branches).run (browser patience) .find signal).outcome := by
  unfold Locator.run Interrupt.within
  refine follows_request (.modest trivial) fun token => follows_request (.modest trivial) fun expired => ?_
  split
  · exact heads_attempts patience o branches _ _
  · refine follows_request (.modest trivial) fun now => follows_request (.modest trivial) fun ended => ?_
    refine follows_request (.expire _ ended) fun _ => ?_
    refine Follows.attempt ((follows_protect _).mpr (heads_attempts patience o branches _ _))
      fun st outcome hst => ?_
    cases st with
    | apart =>
      exact follows_request (.cancel ended) fun _ => follows_ofExcept hst
    | gathering k n => exact absurd hst id
    | won k h =>
      exact follows_request (.cancels k h ended) fun _ => follows_ofExcept hst

/-- To wait for a handle from a race yields the handle of the winner. -/
theorem heads_call (signalled : Bool) :
    Heads (Yields some) .apart
      (Keeping.Call.activity (browser patience) ⟨.race o branches, .waitHandle, signalled⟩) := by
  have hwait : Heads (Yields id) .apart ((Locator.race o branches).waitHandle (browser patience)
      (Keeping.Call.signal (B := side) ⟨.race o branches, .waitHandle, signalled⟩)).outcome :=
    (heads_run patience o branches _).yields fun h => rfl
  exact hwait.yields fun h => rfl

end Race

/-! ### What a stage says of the timeline -/

section Stands

variable {seen : Set Inbox} {st : Stage}
  {tl after : Timeline side.signature (backend patience).World}

/-- No more messages come into the inbox of a race than it goes on to read. -/
def Stage.Holds {World : Type} (tl : Timeline side.signature World) : Stage → Prop
  | apart => True
  | gathering k n => k < tl.inboxes.size ∧ traffic k tl ≤ n
  | won k _ => k < tl.inboxes.size

theorem Stage.Holds.made {World : Type} {tl : Timeline side.signature World} {k : Inbox}
    (h : st.Holds tl) (hk : st.inbox = some k) : k < tl.inboxes.size := by
  cases st with
  | apart => exact absurd hk nofun
  | gathering inbox n => exact Option.some.inj hk ▸ h.1
  | won inbox handle => exact Option.some.inj hk ▸ h

/-- The timeline is as the stage says.  Nobody writes to inboxes that were never made, nor to one
that the race has read, and reads no more. -/
structure Stands {World : Type} (seen : Set Inbox) (st : Stage)
    (tl : Timeline side.signature World) : Prop where
  holds : st.Holds tl
  made : ∀ k ∈ seen, k < tl.inboxes.size
  silent : ∀ k, k ∈ seen ∨ tl.inboxes.size ≤ k → st.inbox = some k ∨ traffic k tl ≤ 0

/-- Who moves from stage to stage writes to no inbox but its own. -/
theorem Stage.Moves.postage_eq_zero {r : Request side.signature} {lead : r.Answer → Stage}
    (hmoves : st.Moves r lead) {k : Inbox} (hk : st.inbox ≠ some k) : postage k r = 0 := by
  cases hmoves with
  | modest h => exact h.postage
  | branch inbox n l i => exact if_neg fun h => hk (congrArg some h)
  | reads inbox n => exact if_neg fun h => hk (congrArg some h)
  | drains inbox h count => exact if_neg fun h => hk (congrArg some h)
  | _ => rfl

/-- A race gives its inbox up when nothing more is to come. -/
theorem Stage.Moves.inbox_or {r : Request side.signature} {lead : r.Answer → Stage}
    (hmoves : st.Moves r lead) (a : r.Answer) {k : Inbox} (hk : st.inbox = some k) :
    (lead a).inbox = some k ∨ st = .gathering k 0 ∧ postage k r = 0 := by
  cases hmoves with
  | modest | expire | cancel | begins => exact absurd hk nofun
  | reads inbox n =>
    cases (a : Except Error Handle) with
    | ok h => exact Or.inl hk
    | error e => exact Or.inl hk
  | fails inbox t => exact Or.inr ⟨congrArg (Stage.gathering · 0) (Option.some.inj hk), rfl⟩
  | child | branch | cancels | drains => exact Or.inl hk

/-- A message that is read does not come any more. -/
theorem traffic_take {K : Activity.Backend side.signature} {tl after : Timeline side.signature K.World}
    {k : Inbox} {m : Except Error Handle} (hp : perform K tl (.take k) = some (m, after)) :
    tl.messages k = m :: after.messages k ∧ traffic k after + 1 = traffic k tl := by
  cases Timeline.performs hp with
  | @take _ _ rest hm =>
    have hrest := (Timeline.messages_take hm k).trans (if_pos rfl)
    have hlength : (tl.messages k).length = rest.length + 1 := congrArg List.length hm
    refine ⟨hm.trans (congrArg (List.cons m) hrest.symm), ?_⟩
    unfold traffic
    rw [hrest, hlength, Nat.cast_succ, add_right_comm]
    rfl

/-- With a branch one more message may come. -/
theorem traffic_branch (k : Inbox) (l : Locator Unit) (i : Interrupt) :
    traffic k (tl.fork (backend patience) (.branch l i k)) ≤ traffic k tl + 1 := by
  have hp : perform (backend patience) tl (.fork (.branch l i k)) =
      some ((), tl.fork (backend patience) (.branch l i k)) := rfl
  have hone : postage k (.fork (.branch l i k)) = 1 := if_pos rfl
  rw [← hone]
  exact perform_traffic hp

/-- Whoever moves from stage to stage leaves the timeline as the next stage says. -/
theorem Stands.perform {r : Request side.signature} {lead : r.Answer → Stage} {a : r.Answer}
    (h : Stands seen st tl) (hmoves : st.Moves r lead)
    (hp : perform (backend patience) tl r = some (a, after)) : Stands seen (lead a) after := by
  have hinstant := Timeline.perform_instant hp
  have htraffic : ∀ k, traffic k after ≤ traffic k tl + postage k r := fun k => perform_traffic hp
  refine ⟨?_, fun k hk => Nat.lt_of_lt_of_le (h.made k hk) hinstant.inboxes, fun k hk => ?_⟩
  · cases hmoves with
    | modest | expire | cancel | fails => trivial
    | begins =>
      obtain ⟨rfl, rfl⟩ := Prod.mk.inj (Option.some.inj hp)
      have hfresh : traffic tl.inboxes.size tl ≤ 0 :=
        (h.silent _ (Or.inr le_rfl)).resolve_left nofun
      exact ⟨by simp, ((htraffic _).trans_eq (add_zero _)).trans hfresh⟩
    | child k n parent =>
      exact ⟨Nat.lt_of_lt_of_le h.holds.1 hinstant.inboxes,
        ((htraffic k).trans_eq (add_zero _)).trans h.holds.2⟩
    | branch k n l i =>
      obtain ⟨-, rfl⟩ := Prod.mk.inj (Option.some.inj hp)
      exact ⟨h.holds.1, (traffic_branch k l i).trans (add_le_add h.holds.2 le_rfl)⟩
    | reads k n =>
      have hsize := Nat.lt_of_lt_of_le h.holds.1 hinstant.inboxes
      have hle := h.holds.2
      rw [← (traffic_take hp).2, Nat.cast_succ] at hle
      cases (a : Except Error Handle) with
      | ok handle => exact hsize
      | error e => exact ⟨hsize, (ENat.add_le_add_iff_right ENat.one_ne_top).mp hle⟩
    | cancels k h t => exact Nat.lt_of_lt_of_le h.holds hinstant.inboxes
    | drains k h count => exact Nat.lt_of_lt_of_le h.holds hinstant.inboxes
  · have hquiet := h.silent k (hk.imp_right hinstant.inboxes.trans)
    by_cases hown : st.inbox = some k
    · refine (hmoves.inbox_or a hown).imp_right fun ⟨hst, hpostage⟩ => ?_
      have hnone : traffic k tl ≤ (0 : ℕ) := (hst ▸ h.holds : (Stage.gathering k 0).Holds tl).2
      have hnew := htraffic k
      rw [hpostage, add_zero] at hnew
      exact hnew.trans hnone
    · have hnew := htraffic k
      rw [hmoves.postage_eq_zero hown, add_zero] at hnew
      exact Or.inr (hnew.trans (hquiet.resolve_left hown))

theorem keptByMoves_stands (seen : Set Inbox) :
    KeptByMoves (K := backend patience) Stage.Moves (Stands seen) :=
  fun _ _ _ _ _ _ hmoves hp hst => hst.perform hmoves hp

/-- What goes on in the background does not matter to where a race stands. -/
theorem Stands.runTask (h : Stands seen st tl) (id : Nat) :
    Stands seen st (runTask (backend patience) tl id) := by
  have hsize := (Timeline.runTask_instant (B := backend patience) tl id).inboxes
  refine ⟨?_, fun k hk => Nat.lt_of_lt_of_le (h.made k hk) hsize, fun k hk => ?_⟩
  · cases st with
    | apart => trivial
    | gathering k n =>
      exact ⟨Nat.lt_of_lt_of_le h.holds.1 hsize, (runTask_traffic id (Or.inl h.holds.1) h.holds.2).1⟩
    | won k handle => exact Nat.lt_of_lt_of_le h.holds hsize
  · refine (h.silent k (hk.imp_right hsize.trans)).imp_right fun hnone => ?_
    have hzero : traffic k tl ≤ (0 : ℕ) := hnone
    exact (runTask_traffic id (hk.imp_left (h.made k)) hzero).1

/-! ### The winner -/

/-- The first handle among messages. -/
def firstFound (ms : List (Except Error Handle)) : Option Handle := ms.findSome? Except.toOption

/-- A message that has come stays the first. -/
theorem firstFound_of_prefix {ms more : List (Except Error Handle)} {h : Handle} (hp : ms <+: more)
    (hfound : firstFound ms = some h) : firstFound more = some h := by
  obtain ⟨rest, rfl⟩ := hp
  unfold firstFound at hfound ⊢
  rw [List.findSome?_append, hfound]
  rfl

variable {f : Handle → β} {k : Inbox} {h : Handle}

/-- Where nothing is to come nothing lies. -/
theorem messages_of_traffic {World : Type} {tl : Timeline side.signature World}
    (htraffic : traffic k tl ≤ 0) : tl.messages k = [] := by
  have hempty : ((tl.messages k).length : ℕ∞) ≤ (0 : ℕ) := le_self_add.trans htraffic
  exact List.eq_nil_of_length_eq_zero (Nat.le_zero.mp (ENat.natCast_le_natCast.mp hempty))

/-- Where nothing is to come nobody sends anything. -/
theorem silent_of_traffic {World : Type} {tl : Timeline side.signature World} (htraffic : traffic k tl ≤ 0)
    {task : Activity.Task side.signature} (htask : task ∈ tl.tasks) : Silent k task.activity := by
  have hmem : task.activity ∈ tl.bag := Multiset.mem_coe.mpr (List.mem_map_of_mem htask)
  exact (Multiset.le_sum_of_mem (Multiset.mem_map_of_mem _ hmem)).trans (le_add_self.trans htraffic)

/-- Where nothing is to come there is no handle. -/
theorem not_found_of_traffic {World : Type} {tl : Timeline side.signature World}
    (htraffic : traffic k tl ≤ 0)
    (hfound : firstFound (tl.messages k) = some h) : False := by
  rw [messages_of_traffic htraffic] at hfound
  exact absurd hfound nofun

/-- Once a branch has won there is nothing more to wait for. -/
theorem advance_of_won {p : side.Task (Except Error β)} (hp : Heads (Yields f) (.won k h) p) :
    (advance (backend patience) p tl).1 = .done (.ok (f h)) := by
  induction p generalizing tl with
  | done a => exact congrArg Activity.done hp
  | ask r ws duties next stop ihn ihs =>
    obtain ⟨lead, hmoves, hnext, -⟩ := hp
    cases hmoves with
    | cancels inbox w t => exact ihn () (hnext ())
    | drains inbox w count => exact ihn () (hnext ())

/-- A race with a handle among its messages takes the first one, and passes over the failures that
came before. -/
theorem advance_of_found {n : ℕ} {p : side.Task (Except Error β)}
    (hp : Heads (Yields f) (.gathering k n) p) (htraffic : traffic k tl ≤ n)
    (hfound : firstFound (tl.messages k) = some h) :
    (advance (backend patience) p tl).1 = .done (.ok (f h)) := by
  induction p generalizing n tl with
  | done a => exact absurd hp id
  | ask r ws duties next stop ihn ihs =>
    obtain ⟨lead, hmoves, hnext, -⟩ := hp
    cases hmoves with
    | child inbox n parent => exact ihn _ (hnext _) htraffic hfound
    | branch inbox n l i =>
      exact ihn () (hnext ()) ((traffic_branch k l i).trans (add_le_add htraffic le_rfl)) hfound
    | reads inbox n =>
      have hsome : tl.messages k ≠ [] := fun hnil => absurd (hnil ▸ hfound) nofun
      obtain ⟨m, rest, hm⟩ := List.exists_cons_of_ne_nil hsome
      obtain ⟨after, hp⟩ : ∃ after, perform (backend patience) tl (.take k) = some (m, after) := by
        simp only [perform, hm]
        exact ⟨_, rfl⟩
      obtain ⟨hmessages, htake⟩ := traffic_take hp
      rw [← htake, Nat.cast_succ] at htraffic
      rw [hmessages] at hfound
      simp only [Timeline.advance, hp]
      cases (m : Except Error Handle) with
      | ok w =>
        obtain rfl : w = h := Option.some.inj hfound
        exact advance_of_won (hnext (.ok w))
      | error e =>
        exact ihn _ (hnext (.error e)) ((ENat.add_le_add_iff_right ENat.one_ne_top).mp htraffic) hfound
    | fails inbox t => exact (not_found_of_traffic htraffic hfound).elim

end Stands

/-! ### Before anything is started -/

theorem traffic_forkAll {k : Inbox} {jobs : List (Job Handle Unit Timed)}
    (hjobs : ∀ job ∈ jobs, Job.outgoing k job = 0)
    (tl : Timeline side.signature (backend patience).World) :
    traffic k (tl.forkAll (backend patience) jobs) ≤ traffic k tl := by
  induction jobs generalizing tl with
  | nil => exact le_rfl
  | cons job rest ih =>
    have hfork : Timeline.perform (backend patience) tl (.fork job) =
        some ((), tl.fork (backend patience) job) := rfl
    have hjob : postage k (.fork job) = 0 := hjobs job List.mem_cons_self
    have hle := perform_traffic (k := k) hfork
    rw [hjob, add_zero] at hle
    exact (ih (fun j hj => hjobs j (List.mem_cons_of_mem job hj)) _).trans hle

/-- In a scene nobody sends anything on its own. -/
theorem traffic_scene (s : Scene) (k : Inbox) : traffic k (s.timeline patience) ≤ 0 := by
  refine (traffic_forkAll (fun job hjob => ?_) s.stage).trans le_rfl
  obtain ⟨event, -, rfl⟩ := List.mem_map.mp hjob
  cases event <;> rfl

/-! ### Runs -/

section Runs

variable {seen : Set Inbox} {Q : Stage → α → Prop}

/-- The foreground goes from stage to stage, and everything stands as its stage says. -/
def Poised {World : Type} (seen : Set Inbox) (Q : Stage → α → Prop)
    (run : Activity.Run side.signature World α) : Prop :=
  ∃ st, Heads Q st run.main ∧ Stands seen st run.timeline

theorem Poised.step {run next : Activity.Run side.signature (backend patience).World α}
    (h : Poised seen Q run) (hstep : run.step (backend patience) = some next) :
    Poised seen Q next := by
  obtain ⟨st, hheads, hst⟩ := h
  unfold Activity.Run.step at hstep
  split at hstep
  · rename_i id rest hready
    obtain rfl := Option.some.inj hstep
    have hqueued : Stands seen st { run.timeline with ready := rest } :=
      ⟨hst.holds, hst.made, hst.silent⟩
    exact ⟨st, hheads, hqueued.runTask id⟩
  · split at hstep
    · exact absurd hstep nofun
    · split at hstep
      · obtain rfl := Option.some.inj hstep
        exact hheads.resume (keptByMoves_stands seen) hst
      · split at hstep
        · exact absurd hstep nofun
        · split at hstep
          · obtain rfl := Option.some.inj hstep
            exact ⟨st, hheads, hst.holds, hst.made, hst.silent⟩
          · exact absurd hstep nofun

theorem Poised.finish {run : Activity.Run side.signature (backend patience).World α}
    (h : Poised seen Q run) (budget : Nat) : Poised seen Q (run.finish (backend patience) budget) := by
  induction budget generalizing run with
  | zero => exact h
  | succ budget ih =>
    rcases hstep : run.step (backend patience) with _ | next
    · rw [Activity.Run.finish_of_step_none hstep]
      exact h
    · rw [Activity.Run.finish_of_step hstep]
      exact ih (h.step hstep)

end Runs

end Wayfind.Simulation
