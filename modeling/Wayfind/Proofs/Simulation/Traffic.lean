/-
What may still come into an inbox.

The branches of a race post one message each to its inbox, and nobody else does.  `outgoing`
counts what an activity may still post to an inbox, itself or through jobs; whoever might
take messages out or close the inbox has no such number.  The `traffic` of an inbox is what
lies in it together with what may still come.  It does not grow while the background goes on,
and what lies in the inbox stays there for its reader (`runTask_traffic`).
-/
import Mathlib
import Wayfind.Proofs.Activity.Trail
import Wayfind.Proofs.Simulation.Asking

namespace Wayfind.Simulation

open Activity (Token Inbox Request Duty Timeline Task Asks Exchange Aloof sentTo)
open Activity.Timeline (perform advance resume runTask trail onward taskTrail)
open PageSide (Action releaseDuty)

variable {patience : Nat} {α β : Type} {k : Inbox}

/-! ### What an activity may post -/

/-- How many messages a job may post to an inbox. -/
noncomputable def Job.outgoing (k : Inbox) : Job Handle Unit Timed → ℕ∞
  | .branch _ _ inbox => if inbox = k then 1 else 0
  | .drain inbox _ => if inbox = k then ⊤ else 0
  | _ => 0

/-- How many messages a request adds to what may come into an inbox. -/
noncomputable def postage (k : Inbox) : Request side.signature → ℕ∞
  | .fork job => Job.outgoing k job
  | .post inbox _ => if inbox = k then 1 else 0
  | .take inbox | .close inbox => if inbox = k then ⊤ else 0
  | _ => 0

/-- The answer does not say that the inbox has just been made. -/
def Elsewhere (k : Inbox) : (r : Request side.signature) → r.Answer → Prop
  | .newInbox, inbox => inbox ≠ k
  | _, _ => True

/-- How many messages an activity may post to an inbox that exists. -/
noncomputable def outgoing (k : Inbox) : side.Task α → ℕ∞
  | .done _ => 0
  | .ask r _ _ next stop => postage k r +
      max (⨆ a, ⨆ _ : Elsewhere k r a, outgoing k (next a)) (⨆ t, ⨆ h, outgoing k (stop t h))

section Rules

variable {m n : ℕ∞} {r : Request side.signature} {ws : List Token}
  {duties : List (Duty side.signature)} {next : r.Answer → side.Task α}
  {stop : (t : Token) → t ∈ ws → side.Task α}

theorem outgoing_ask_le (hr : postage k r ≤ m) (hnext : ∀ a, Elsewhere k r a → outgoing k (next a) ≤ n)
    (hstop : ∀ t h, outgoing k (stop t h) ≤ n) : outgoing k (.ask r ws duties next stop) ≤ m + n :=
  add_le_add hr (max_le (iSup₂_le hnext) (iSup₂_le hstop))

theorem outgoing_next_le {a : r.Answer} (ha : Elsewhere k r a) :
    postage k r + outgoing k (next a) ≤ outgoing k (.ask r ws duties next stop) :=
  add_le_add le_rfl ((le_iSup₂ (f := fun a (_ : Elsewhere k r a) => outgoing k (next a)) a ha).trans
    (le_max_left _ _))

theorem outgoing_stop_le (t : Token) (h : t ∈ ws) :
    outgoing k (stop t h) ≤ outgoing k (.ask r ws duties next stop) :=
  ((le_iSup₂ (f := fun t h => outgoing k (stop t h)) t h).trans (le_max_right _ _)).trans le_add_self

theorem outgoing_bind_le {p : side.Task α} {f : α → side.Task β} (hp : outgoing k p ≤ m)
    (hf : ∀ a, outgoing k (f a) ≤ n) : outgoing k (Activity.bind p f) ≤ m + n := by
  refine le_trans ?_ (add_le_add hp le_rfl)
  clear hp
  induction p with
  | done a => exact (hf a).trans le_add_self
  | ask r ws duties next stop ihn ihs =>
    simp only [outgoing, add_assoc]
    refine outgoing_ask_le le_rfl (fun a ha => (ihn a).trans (add_le_add ?_ le_rfl)) fun t h =>
      (ihs t h).trans (add_le_add ?_ le_rfl)
    · exact (le_iSup₂ (f := fun a (_ : Elsewhere k r a) => outgoing k (next a)) a ha).trans
        (le_max_left _ _)
    · exact (le_iSup₂ (f := fun t h => outgoing k (stop t h)) t h).trans (le_max_right _ _)

theorem outgoing_perform_le {f : r.Answer → side.Task β} (hr : postage k r ≤ m)
    (hf : ∀ a, Elsewhere k r a → outgoing k (f a) ≤ n) :
    outgoing k (Activity.bind (Activity.perform r) f) ≤ m + n := by
  rw [Activity.bind_perform]
  exact outgoing_ask_le hr hf fun t h => absurd h List.not_mem_nil

@[simp] theorem outgoing_protect (p : side.Task α) (duties : List (Duty side.signature)) :
    outgoing k (Activity.protect duties p) = outgoing k p := by
  induction p with
  | done a => rfl
  | ask r ws own next stop ihn ihs => simp only [Activity.protect, outgoing, ihn, ihs]

end Rules

/-! ### Silence -/

/-- The activity has nothing to do with the inbox, if it exists. -/
def Silent (k : Inbox) (p : side.Task α) : Prop := outgoing k p ≤ 0

theorem Silent.bind {p : side.Task α} {f : α → side.Task β} (hp : Silent k p)
    (hf : ∀ a, Silent k (f a)) : Silent k (Activity.bind p f) :=
  (outgoing_bind_le hp hf).trans_eq (add_zero 0)

theorem Silent.andThen {a : side.Action α} {f : α → side.Action β} (ha : Silent k a.outcome)
    (hf : ∀ v, Silent k (f v).outcome) : Silent k (a >>= f).outcome := by
  rw [outcome_bind]
  refine ha.bind fun r => ?_
  cases r with
  | ok v => exact hf v
  | error e => exact le_rfl

theorem silent_perform {r : Request side.signature} {f : r.Answer → side.Task β}
    (hr : postage k r = 0) (hf : ∀ a, Elsewhere k r a → Silent k (f a)) :
    Silent k (Activity.bind (Activity.perform r) f) :=
  (outgoing_perform_le hr.le hf).trans_eq (add_zero 0)

theorem silent_last {r : Request side.signature} (hr : postage k r = 0) :
    Silent k (Activity.perform r) := by
  rw [← Activity.bind_done (Activity.perform r)]
  exact silent_perform hr fun _ _ => le_rfl

theorem silent_request {r : Request side.signature} {f : r.Answer → side.Action β}
    (hr : postage k r = 0) (hf : ∀ a, Elsewhere k r a → Silent k (f a).outcome) :
    Silent k (Action.perform r >>= f).outcome := by
  rw [Action.perform, outcome_lift_bind]
  exact silent_perform hr hf

theorem Silent.protect {p : side.Task α} (hp : Silent k p) (duties : List (Duty side.signature)) :
    Silent k (Activity.protect duties p) :=
  (outgoing_protect p duties).le.trans hp

theorem Silent.attempt {a : side.Action α} {f : Except Error α → side.Action β}
    (ha : Silent k a.outcome) (hf : ∀ r, Silent k (f r).outcome) :
    Silent k (a.attempt >>= f).outcome := by
  rw [Action.attempt, outcome_lift_bind]
  exact ha.bind hf

theorem Modest.postage {r : Request side.signature} (h : Modest r) : postage k r = 0 := by
  cases r with
  | query | clock | sleepUntil | forever | newToken | isCancelled => rfl
  | _ => exact absurd h id

theorem silent_of_modest {p : side.Task α} (hp : Asks Modest p) : Silent k p := by
  induction p with
  | done a => exact le_rfl
  | ask r ws duties next stop ihn ihs =>
    exact (outgoing_ask_le hp.1.1.postage.le (fun a _ => ihn a (hp.2.1 a))
      fun t h => ihs t h (hp.2.2 t h)).trans_eq (add_zero 0)

theorem Asking.silent {a : side.Action α} (ha : Asking Modest a) : Silent k a.outcome :=
  silent_of_modest ha

/-! ### Looking -/

theorem silent_firstHandle {inbox : Inbox} (hinbox : inbox ≠ k) (count : Nat) (last : Option Error) :
    Silent k (Race.firstHandle (B := side) inbox count last).outcome := by
  induction count generalizing last with
  | zero => exact le_rfl
  | succ count ih =>
    refine silent_request (if_neg hinbox) fun (m : Except Error Handle) _ => ?_
    cases m with
    | ok handle => exact le_rfl
    | error e => exact ih (some e)

theorem silent_forkBranches (race : Interrupt) {inbox : Inbox} (hinbox : inbox ≠ k)
    (branches : List (Locator Unit)) :
    Silent k (Race.forkBranches (B := side) race inbox branches).outcome := by
  induction branches with
  | nil => exact le_rfl
  | cons l rest ih =>
    exact (modest_child race).silent.andThen fun branch =>
      silent_request (if_neg hinbox) fun _ _ => ih

/-- A race has an inbox of its own. -/
theorem silent_race (branches : List (Locator Unit)) (i : Interrupt) :
    Silent k (Race.run (B := side) branches i).outcome := by
  unfold Race.run
  split
  · exact le_rfl
  · refine (modest_child i).silent.andThen fun race => silent_request rfl fun inbox hinbox => ?_
    refine (silent_forkBranches race hinbox branches).andThen fun _ => ?_
    refine ((silent_firstHandle hinbox _ _).protect _).andThen fun winner => ?_
    refine silent_request rfl fun _ _ => ?_
    cases winner with
    | ok found => exact silent_request (if_neg hinbox) fun _ _ => le_rfl
    | error last => exact le_rfl

theorem silent_resolve (i : Interrupt) :
    ∀ l : Locator side.Page, Silent k (l.resolve (browser patience) i).outcome
  | .node o _ selector => by
    unfold Locator.resolve
    refine (modest_remaining i).silent.andThen fun ms => ?_
    refine (modest_guard i (modest_waitForSelector selector _)).silent.andThen fun found => ?_
    cases found with
    | some handle => exact le_rfl
    | none => exact le_rfl
  | .function _ _ script => by
    unfold Locator.resolve
    exact (modest_remaining i).silent.andThen fun ms => (modest_guard i (modest_callHandle script)).silent
  | .filtered o inner predicate => by
    unfold Locator.resolve
    refine (silent_resolve i inner).andThen fun handle => ?_
    refine Silent.attempt ((modest_guard i (modest_waitFor predicate _ _)).silent.protect _) fun held => ?_
    have hrelease : ∀ h, Asking Modest ((realm patience).releaseIn h) := modest_releaseIn
    cases held with
    | ok result => exact ((hrelease result).silent.protect _).andThen fun _ => le_rfl
    | error e => exact ((hrelease handle).silent.protect _).andThen fun _ => le_rfl
  | .mapped _ inner mapper => by
    unfold Locator.resolve
    refine (silent_resolve i inner).andThen fun handle => ?_
    refine Silent.attempt ((modest_guard i (modest_evaluateHandle handle mapper)).silent.protect _)
      fun made => ?_
    have hrelease : Asking Modest ((realm patience).releaseIn handle) := modest_releaseIn handle
    refine (hrelease.silent.protect _).andThen fun _ => ?_
    rw [outcome_ofExcept]
    exact le_rfl
  | .race _ branches => by
    unfold Locator.resolve
    exact silent_race branches i

/-! ### Background work -/

theorem outgoing_branch (l : Locator Unit) (i : Interrupt) (inbox : Inbox) :
    outgoing k (l.runBranch (browser patience) i inbox) ≤ if inbox = k then 1 else 0 := by
  have hend : Silent k (Activity.perform (.discard i.token) : side.Task Unit) := silent_last rfl
  have hpost : outgoing k (l.runBranch (browser patience) i inbox) ≤
      0 + ((if inbox = k then 1 else 0) + 0) := by
    refine outgoing_bind_le (silent_resolve i l) fun found => ?_
    refine outgoing_perform_le le_rfl fun (accepted : Bool) _ => ?_
    cases found with
    | ok handle =>
      cases accepted with
      | true => exact hend
      | false => exact (silent_of_modest (asks_release patience handle)).bind fun _ => hend
    | error e => exact hend
  rwa [zero_add, add_zero] at hpost

theorem silent_drain {inbox : Inbox} (hinbox : inbox ≠ k) (count : Nat) :
    Silent k (Race.drain (realm patience) inbox count) := by
  induction count with
  | zero => exact le_rfl
  | succ count ih =>
    refine silent_perform (if_neg hinbox) fun (m : Except Error Handle) _ => ?_
    cases m with
    | ok handle => exact (silent_of_modest (asks_release patience handle)).bind fun _ => ih
    | error e => exact ih

theorem silent_expire (i : Interrupt) (ended : Token) : Silent k (i.expire ended : side.Task Unit) := by
  unfold Interrupt.expire
  split
  · exact le_rfl
  · rename_i deadline hdeadline
    refine (silent_of_modest (asks_awaitDeadline i ended deadline)).bind fun reached => ?_
    cases reached with
    | true => exact silent_perform rfl fun _ _ => silent_last rfl
    | false => exact le_rfl

/-- A job posts no more than is said of it. -/
theorem outgoing_start (job : Job Handle Unit Timed) :
    outgoing k ((backend patience).start job) ≤ Job.outgoing k job := by
  cases job with
  | release handle => exact silent_of_modest (asks_release patience handle)
  | expire i ended => exact silent_expire i ended
  | branch l i inbox => exact outgoing_branch l i inbox
  | drain inbox count =>
    by_cases h : inbox = k
    · exact le_top.trans_eq (if_pos h).symm
    · exact (silent_drain h count).trans bot_le
  | cancelAt time t => exact silent_perform rfl fun _ _ => silent_last rfl
  | chore c => exact silent_perform rfl fun _ _ => silent_last rfl

theorem outgoing_discardFound {m : Except Error Handle} {job : Job Handle Unit Timed}
    (h : job ∈ discardFound m) : Job.outgoing k job ≤ 0 := by
  cases m with
  | ok handle =>
    rw [List.mem_singleton.mp h]
    exact le_rfl
  | error e => exact absurd h List.not_mem_nil

/-! ### Traffic -/

/-- What lies in an inbox, and what may still come from the background. -/
noncomputable def traffic {World : Type} (k : Inbox) (tl : Timeline side.signature World) : ℕ∞ :=
  (tl.messages k).length + (tl.bag.map (outgoing k)).sum

variable {tl after : Timeline side.signature (backend patience).World}

theorem sum_outgoing_le {s t : Multiset (side.Task Unit)} (h : s ≤ t) :
    (s.map (outgoing k)).sum ≤ (t.map (outgoing k)).sum := by
  obtain ⟨u, rfl⟩ := Multiset.le_iff_exists_add.mp h
  rw [Multiset.map_add, Multiset.sum_add]
  exact le_self_add

/-- Whoever pays for what it does to an inbox neither reads from it nor closes it. -/
theorem not_reads_of_postage {r : Request side.signature} (hr : postage k r ≠ ⊤) (a : r.Answer) :
    Exchange.taken k ⟨r, a⟩ = [] ∧ ¬ Exchange.Closes k ⟨r, a⟩ := by
  cases r with
  | take inbox => exact ⟨if_neg fun h => hr (if_pos h), id⟩
  | close inbox => exact ⟨rfl, fun h => hr (if_pos h)⟩
  | _ => exact ⟨rfl, id⟩

/-- A request other than the reader's adds to an inbox, now or through jobs, no more than its
postage. -/
theorem perform_posts {r : Request side.signature} {a : r.Answer}
    (hp : perform (backend patience) tl r = some (a, after)) (hr : postage k r ≠ ⊤) :
    after.messages k = tl.messages k ++ Exchange.sent k ⟨r, a⟩ ∧
      ((Exchange.sent k ⟨r, a⟩).length : ℕ∞) + (((Timeline.jobsOf (backend patience) tl r).map
        (backend patience).start).map (outgoing k)).sum ≤ postage k r := by
  obtain ⟨htaken, hopen⟩ := not_reads_of_postage hr a
  have hmail := Activity.perform_mail hp hopen
  rw [htaken, List.nil_append] at hmail
  refine ⟨hmail.symm, ?_⟩
  cases r with
  | fork job => simpa [Timeline.jobsOf, postage, Exchange.sent] using outgoing_start job
  | post inbox m =>
    have hlen : ((Exchange.sent k ⟨.post inbox m, a⟩).length : ℕ∞) ≤ if inbox = k then 1 else 0 := by
      by_cases h : inbox = k
      · rw [if_pos h]
        simp only [Exchange.sent]
        split <;> simp
      · have hother : (inbox == k) = false := beq_eq_false_iff_ne.mpr h
        have hnone : Exchange.sent k ⟨.post inbox m, a⟩ = [] := by
          simp only [Exchange.sent, hother]
          rfl
        simp [hnone]
    simpa [Timeline.jobsOf, postage] using hlen
  | close inbox =>
    have hsilent : (((Timeline.jobsOf (backend patience) tl (.close inbox)).map
        (backend patience).start).map (outgoing k)).sum = 0 := by
      refine List.sum_eq_zero fun x hx => ?_
      obtain ⟨p, hp, rfl⟩ := List.mem_map.mp hx
      obtain ⟨job, hjob, rfl⟩ := List.mem_map.mp hp
      obtain ⟨m, -, hm⟩ := List.mem_flatMap.mp hjob
      exact nonpos_iff_eq_zero.mp ((outgoing_start job).trans (outgoing_discardFound hm))
    rw [hsilent]
    exact bot_le
  | _ => exact bot_le

/-- The inbox is not made between two timelines. -/
def Settled {World : Type} (k : Inbox) (tl after : Timeline side.signature World) : Prop :=
  k < tl.inboxes.size ∨ after.inboxes.size ≤ k

section Elsewhere

variable {K : Activity.Backend side.signature} {tl after : Timeline side.signature K.World}

theorem elsewhere_of_perform {r : Request side.signature} {a : r.Answer}
    (hp : perform K tl r = some (a, after)) (hk : Settled k tl after) : Elsewhere k r a := by
  cases r with
  | newInbox =>
    obtain ⟨rfl, rfl⟩ := Prod.mk.inj (Option.some.inj hp)
    rintro rfl
    have hsize : (tl.inboxes.push ⟨[], false⟩).size = tl.inboxes.size + 1 := Array.size_push ..
    rcases hk with hk | hk
    · exact Nat.lt_irrefl _ hk
    · exact Nat.not_succ_le_self _ (hsize ▸ hk)
  | _ => trivial

/-- Who only posts to an inbox does not read from it. -/
theorem trail_aloof {p : side.Task α} (hk : Settled k tl (advance K p tl).2) (hp : outgoing k p ≠ ⊤) :
    Aloof k (trail K p tl) := by
  induction p generalizing tl with
  | done a => exact Activity.aloof_nil k
  | ask r ws duties next stop ihn ihs =>
    rcases hperform : perform K tl r with _ | ⟨a, after⟩
    · simp only [trail, hperform]
      exact Activity.aloof_nil k
    · simp only [advance, hperform] at hk
      simp only [trail, hperform]
      have hka : Settled k tl after :=
        hk.imp_right (Timeline.advance_instant (B := K) (next a) after).inboxes.trans
      have hka' : Settled k after (advance K (next a) after).2 :=
        hk.imp_left fun hk => Nat.lt_of_lt_of_le hk (Timeline.perform_instant hperform).inboxes
      have hle : postage k r + outgoing k (next a) ≤ outgoing k (.ask r ws duties next stop) :=
        outgoing_next_le (elsewhere_of_perform hperform hka)
      exact (Activity.aloof_cons k _ _).mpr
        ⟨not_reads_of_postage (ne_top_of_le_ne_top hp (le_self_add.trans hle)) a,
          ihn a hka' (ne_top_of_le_ne_top hp (le_add_self.trans hle))⟩

/-- However an activity is resumed, it posts no more. -/
theorem outgoing_onward_le {World : Type} (tl : Timeline side.signature World) (p : side.Task α) :
    outgoing k (onward tl p) ≤ outgoing k p := by
  cases p with
  | done a => exact le_rfl
  | ask r ws duties next stop =>
    simp only [onward]
    split
    · exact outgoing_stop_le _ _
    · exact le_rfl

/-- What is to come from a background activity, and from the others, is what is to come. -/
theorem traffic_besides_le {id : Nat} {task : Task side.signature}
    (hfind : tl.tasks.find? (fun t => t.id == id) = some task) :
    traffic k (tl.besides id) + outgoing k task.activity ≤ traffic k tl := by
  have hsum := sum_outgoing_le (k := k) (Timeline.cons_bag_le hfind)
  rw [Multiset.map_cons, Multiset.sum_cons, add_comm] at hsum
  calc traffic k (tl.besides id) + outgoing k task.activity
      = (tl.messages k).length +
          (((tl.besides id).bag.map (outgoing k)).sum + outgoing k task.activity) := add_assoc _ _ _
    _ ≤ traffic k tl := add_le_add le_rfl hsum

/-- The background does not read from an inbox when only so many messages may come into it. -/
theorem taskTrail_aloof {n : ℕ} (id : Nat) (hk : Settled k tl (runTask K tl id))
    (h : traffic k tl ≤ n) : Aloof k (taskTrail K tl id) := by
  rcases Timeline.turn tl id with ⟨htrail, -⟩ | ⟨task, hfind, htrail, hrejoined⟩
  · rw [htrail]
    exact Activity.aloof_nil k
  · rw [htrail]
    refine trail_aloof (hk.imp_right (le_of_eq_of_le (congrArg Array.size hrejoined.inboxes.symm)))
      (ne_top_of_le_ne_top (ENat.natCast_ne_top n) ?_)
    exact (outgoing_onward_le _ _).trans ((le_add_self.trans (traffic_besides_le hfind)).trans h)

end Elsewhere

theorem perform_traffic {r : Request side.signature} {a : r.Answer}
    (hp : perform (backend patience) tl r = some (a, after)) :
    traffic k after ≤ traffic k tl + postage k r := by
  by_cases hr : postage k r = ⊤
  · rw [hr, add_top]
    exact le_top
  · obtain ⟨hnew, hposts⟩ := perform_posts hp hr
    unfold traffic
    rw [Timeline.perform_bag hp, hnew, Multiset.map_add, Multiset.sum_add, List.length_append,
      Nat.cast_add, add_add_add_comm]
    exact add_le_add le_rfl hposts

/-- What an activity does to an inbox that is not its own is paid for: what may come in does not
grow. -/
theorem advance_traffic {p : side.Task α} {n : ℕ}
    (hk : Settled k tl (advance (backend patience) p tl).2) (h : traffic k tl + outgoing k p ≤ n) :
    traffic k (advance (backend patience) p tl).2 +
      outgoing k (advance (backend patience) p tl).1 ≤ n := by
  induction p generalizing tl with
  | done a => exact h
  | ask r ws duties next stop ihn ihs =>
    rcases hp : perform (backend patience) tl r with _ | ⟨a, after⟩
    · simp only [advance, hp]
      exact h
    · simp only [advance, hp] at hk ⊢
      have hka : Settled k tl after :=
        hk.imp_right (Timeline.advance_instant (B := backend patience) (next a) after).inboxes.trans
      have hka' : Settled k after (advance (backend patience) (next a) after).2 :=
        hk.imp_left fun hk => Nat.lt_of_lt_of_le hk (Timeline.perform_instant hp).inboxes
      have hnext : postage k r + outgoing k (next a) ≤ outgoing k (.ask r ws duties next stop) :=
        outgoing_next_le (elsewhere_of_perform hp hka)
      exact ihn a hka' (calc
        traffic k after + outgoing k (next a)
          ≤ traffic k tl + postage k r + outgoing k (next a) := add_le_add (perform_traffic hp) le_rfl
        _ = traffic k tl + (postage k r + outgoing k (next a)) := add_assoc _ _ _
        _ ≤ n := (add_le_add le_rfl hnext).trans h)

/-- In the background nothing more comes into an inbox than was to come, and nothing is taken
out of it. -/
theorem runTask_traffic {n : ℕ} (id : Nat) (hk : Settled k tl (runTask (backend patience) tl id))
    (h : traffic k tl ≤ n) :
    traffic k (runTask (backend patience) tl id) ≤ n ∧
      tl.messages k <+: (runTask (backend patience) tl id).messages k := by
  constructor
  · rcases Timeline.turn tl id with ⟨-, hsame⟩ | ⟨task, hfind, -, hrejoined⟩
    · rw [hsame]
      exact h
    · set p := onward (tl.besides id) task.activity with hp
      have hinboxes := hrejoined.inboxes
      have hk' : Settled k (tl.besides id) (advance (backend patience) p (tl.besides id)).2 :=
        hk.imp_right (le_of_eq_of_le (congrArg Array.size hinboxes.symm))
      have hle : traffic k (tl.besides id) + outgoing k p ≤ n :=
        (add_le_add le_rfl (outgoing_onward_le _ _)).trans ((traffic_besides_le hfind).trans h)
      have hsum := sum_outgoing_le (k := k) hrejoined.bag
      rw [Multiset.map_add, Multiset.sum_add, Multiset.map_singleton, Multiset.sum_singleton] at hsum
      refine le_trans ?_ (advance_traffic hk' hle)
      unfold traffic
      rw [Activity.messages_of_inboxes hinboxes k, add_assoc]
      exact add_le_add le_rfl hsum
  · obtain ⟨htaken, hopen⟩ := taskTrail_aloof id hk h
    have hmail := Activity.runTask_mail tl id hopen
    rw [htaken, List.nil_append] at hmail
    exact ⟨_, hmail⟩

end Wayfind.Simulation
