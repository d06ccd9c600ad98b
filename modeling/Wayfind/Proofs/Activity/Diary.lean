/-
What an activity asks, and when.

A diary holds every question of one activity with the time when it was asked.  Between two entries time
goes on only while the activity waits: a sleep ends at its time, whatever else waits takes as long as
others let it.  So what a foreground activity writes into its diary, and for what it then waits, is read
off the activity alone (`Paces`), and holds of every run, whatever goes on in the background
(`paced_of_run`).  A sleep also ends, if only the background comes to rest at every instant
(`Run.exists_woken`).
-/
import Wayfind.Locator.Interrupt
import Wayfind.Proofs.Activity.Clockwork
import Wayfind.Proofs.Activity.Interleaving

namespace Wayfind.Activity

open Timeline (advance resume runTask onward canResume wakeTime watched)

variable {S : Signature} {B : Backend S} {α β : Type}

/-- A question, and when it was asked. -/
structure Entry (B : Backend S) where
  time : Nat
  moment : Moment S.Query B.World

/-- The questions of an activity, in order. -/
abbrev Diary (B : Backend S) := List (Entry B)

/-- What a request adds to a diary. -/
def Request.entries (now : Nat) (w : B.World) (r : Request S) : Diary B :=
  (r.moments w).map (⟨now, ·⟩)

/-- A request that is made at such a time is answered at such a later one. -/
def Request.Lapses : (r : Request S) → r.Answer → Nat → Nat → Prop
  | .clock, (time : Nat), now, later => time = now ∧ later = now
  | .sleepUntil time, _, now, later => later = max now time
  | .take _, _, _, _ => True
  | _, _, now, later => later = now

/-- A request that waits, and what may interrupt it. -/
structure Pause (S : Signature) where
  request : Request S
  watched : List Token

/-- Begun at such a time with such a diary, the activity waits and ends only as is said: at such a
pause, or with such a value, at a time and with the diary then. -/
def Paces (W : Diary B → Nat → Pause S → Prop) (Q : Diary B → Nat → α → Prop) :
    Activity S α → Diary B → Nat → Prop
  | .done a, diary, now => Q diary now a
  | .ask r watched _ next stop, diary, now =>
    (r.waits = true → W diary now ⟨r, watched⟩) ∧
      (∀ a w v later, r.Leads B w a v → r.Lapses a now later →
        Paces W Q (next a) (diary ++ r.entries now w) later) ∧
      ∀ t h later, Paces W Q (stop t h) diary later

/-! ### Rules -/

section Rules

variable {W : Diary B → Nat → Pause S → Prop} {Q : Diary B → Nat → α → Prop} {diary : Diary B} {now : Nat}

theorem Paces.mono {Q' : Diary B → Nat → α → Prop} {p : Activity S α} (h : Paces W Q p diary now)
    (hQ : ∀ diary now a, Q diary now a → Q' diary now a) : Paces W Q' p diary now := by
  induction p generalizing diary now with
  | done a => exact hQ diary now a h
  | ask r ws duties next stop ihn ihs =>
    obtain ⟨hwaits, hnext, hstop⟩ := h
    exact ⟨hwaits, fun a w v later hleads hlapses => ihn a (hnext a w v later hleads hlapses),
      fun t ht later => ihs t ht (hstop t ht later)⟩

theorem paces_bind {Q : Diary B → Nat → β → Prop} {p : Activity S α} {f : α → Activity S β} :
    Paces W Q (bind p f) diary now ↔ Paces W (fun diary now a => Paces W Q (f a) diary now) p diary now := by
  induction p generalizing diary now with
  | done a => exact Iff.rfl
  | ask r ws duties next stop ihn ihs => simp only [bind, Paces, ihn, ihs]

/-- A request that does not wait. -/
theorem paces_perform {Q : Diary B → Nat → β → Prop} {r : Request S} {f : r.Answer → Activity S β}
    (hr : r.waits = false) (hf : ∀ a w v later, r.Leads B w a v → r.Lapses a now later →
      Paces W Q (f a) (diary ++ r.entries now w) later) :
    Paces W Q (bind (perform r) f) diary now :=
  ⟨fun h => absurd (hr.symm.trans h) Bool.false_ne_true, hf, fun _ h => absurd h List.not_mem_nil⟩

theorem paces_query {Q : Diary B → Nat → β → Prop} {q : S.Query} {f : S.Answer q → Activity S β}
    (hf : ∀ w, Paces W Q (f (B.answer q w).1) (diary ++ [⟨now, ⟨w, q⟩⟩]) now) :
    Paces W Q (bind (query q) f) diary now := by
  refine paces_perform rfl ?_
  rintro a w v later ⟨rfl, -⟩ rfl
  exact hf w

theorem paces_clock {Q : Diary B → Nat → β → Prop} {f : Nat → Activity S β}
    (hf : Paces W Q (f now) diary now) : Paces W Q (bind (perform .clock) f) diary now := by
  refine paces_perform rfl ?_
  rintro a w v later - ⟨rfl, rfl⟩
  show Paces W Q (f later) (diary ++ []) later
  rw [List.append_nil]
  exact hf

/-- A sleep goes on when its time has come. -/
theorem paces_sleep {Q : Diary B → Nat → β → Prop} {ms : Nat} {f : Unit → Activity S β}
    (hW : W diary now ⟨.sleepUntil (now + ms), []⟩) (hf : Paces W Q (f ()) diary (now + ms)) :
    Paces W Q (bind (sleep ms) f) diary now := by
  refine paces_bind.mpr (paces_clock ?_)
  refine ⟨fun _ => hW, ?_, fun _ h => absurd h List.not_mem_nil⟩
  rintro a w v later - rfl
  show Paces W Q (f ()) (diary ++ []) (max now (now + ms))
  rw [List.append_nil, Nat.max_eq_right (Nat.le_add_right now ms)]
  exact hf

/-- Whoever waits for good waits so. -/
theorem paces_never (hW : W diary now ⟨.forever, []⟩) : Paces W Q never diary now :=
  ⟨fun _ => hW, fun a => Empty.elim a, fun _ h => absurd h List.not_mem_nil⟩

/-- Duties have no part in what is asked. -/
theorem paces_protect (duties : List (Duty S)) {p : Activity S α} :
    Paces W Q (protect duties p) diary now ↔ Paces W Q p diary now := by
  induction p generalizing diary now with
  | done a => exact Iff.rfl
  | ask r ws own next stop ihn ihs => simp only [protect, Paces, ihn, ihs]

/-- A request that is neither a question nor waits takes no time and tells the diary nothing. -/
theorem paces_silent {Q : Diary B → Nat → β → Prop} {r : Request S} {f : r.Answer → Activity S β}
    (hr : r.waits = false) (hquestion : ∀ q, r ≠ .query q) (hf : ∀ a, Paces W Q (f a) diary now) :
    Paces W Q (bind (perform r) f) diary now := by
  refine paces_perform hr fun a w v later _ hlapses => ?_
  have hsilent : r.entries now w = [] := by
    cases r with
    | query q => exact absurd rfl (hquestion q)
    | _ => rfl
  have hlater : later = now := by
    cases r with
    | query q => exact absurd rfl (hquestion q)
    | clock => exact hlapses.2
    | sleepUntil | forever | take => exact absurd hr nofun
    | _ => exact hlapses
  rw [hsilent, List.append_nil, hlater]
  exact hf a

section Guard

variable {Q : Diary B → Nat → β → Prop} {token : Token} {halt : Activity S β}
  (hhalt : ∀ later, Paces W Q halt diary later)
include hhalt

/-- Under a token a request may be interrupted. -/
theorem paces_guard {r : Request S} {f : r.Answer → Activity S β}
    (hW : r.waits = true → W diary now ⟨r, [token]⟩)
    (hf : ∀ a w v later, r.Leads B w a v → r.Lapses a now later →
      Paces W Q (guard token halt (f a)) (diary ++ r.entries now w) later) :
    Paces W Q (guard token halt (bind (perform r) f)) diary now := by
  refine ⟨hW, hf, fun t ht later => ?_⟩
  simp only [dif_pos (List.mem_singleton.mp ht)]
  exact hhalt later

theorem paces_guard_query {q : S.Query} {f : S.Answer q → Activity S β}
    (hf : ∀ w, Paces W Q (guard token halt (f (B.answer q w).1)) (diary ++ [⟨now, ⟨w, q⟩⟩]) now) :
    Paces W Q (guard token halt (bind (query q) f)) diary now := by
  refine paces_guard hhalt (fun hwaits => absurd hwaits Bool.false_ne_true) ?_
  rintro a w v later ⟨rfl, -⟩ rfl
  exact hf w

theorem paces_guard_clock {f : Nat → Activity S β}
    (hf : Paces W Q (guard token halt (f now)) diary now) :
    Paces W Q (guard token halt (bind (perform .clock) f)) diary now := by
  refine paces_guard hhalt (fun hwaits => absurd hwaits Bool.false_ne_true) ?_
  rintro a w v later - ⟨rfl, rfl⟩
  show Paces W Q (guard token halt (f later)) (diary ++ []) later
  rw [List.append_nil]
  exact hf

theorem paces_guard_sleep {ms : Nat} {f : Unit → Activity S β}
    (hW : W diary now ⟨.sleepUntil (now + ms), [token]⟩)
    (hf : Paces W Q (guard token halt (f ())) diary (now + ms)) :
    Paces W Q (guard token halt (bind (sleep ms) f)) diary now := by
  have hsleep : bind (sleep ms) f =
      bind (perform .clock) fun time : Nat => bind (perform (.sleepUntil (time + ms))) f :=
    bind_assoc _ _ _
  rw [hsleep]
  refine paces_guard_clock hhalt (paces_guard hhalt (fun _ => hW) ?_)
  rintro a w v later - rfl
  show Paces W Q (guard token halt (f ())) (diary ++ []) (max now (now + ms))
  rw [List.append_nil, Nat.max_eq_right (Nat.le_add_right now ms)]
  exact hf

theorem paces_guard_never (hW : W diary now ⟨.forever, [token]⟩) :
    Paces W Q (guard token halt never) diary now := by
  refine ⟨fun _ => hW, fun a => Empty.elim a, fun t ht later => ?_⟩
  simp only [dif_pos (List.mem_singleton.mp ht)]
  exact hhalt later

end Guard

/-- What the activity has added to the diary is what it asks on its way to the end. -/
theorem Paces.ends {p : Activity S α} (h : Paces W Q p diary now) :
    Paces W (fun last later a => Q last later a ∧
      ∃ more, last = diary ++ more ∧ Ends B p (more.map (·.moment)) a) p diary now := by
  suffices hall : ∀ (q : Activity S α) (said : Diary B) (now : Nat), Walk B p (said.map (·.moment)) q →
      Paces W Q q (diary ++ said) now → Paces W (fun last later a => Q last later a ∧
        ∃ more, last = diary ++ more ∧ Ends B p (more.map (·.moment)) a) q (diary ++ said) now by
    have hstart := hall p [] now (.stays p)
    rw [List.append_nil] at hstart
    exact hstart h
  intro q
  induction q with
  | done a => exact fun said now hwalk hq => ⟨hq, said, rfl, hwalk⟩
  | ask r ws duties next stop ihn ihs =>
    rintro said now hwalk ⟨hwaits, hnext, hstop⟩
    refine ⟨hwaits, fun a w v later hleads hlapses => ?_, fun t ht later => ?_⟩
    · have hlater := hnext a w v later hleads hlapses
      rw [List.append_assoc] at hlater ⊢
      refine ihn a _ later ?_ hlater
      have hasks := hwalk.trans (.asks hleads (.stays (next a)))
      have hsame : (r.entries now w).map (·.moment) = r.moments w := by
        simp [Request.entries, Function.comp_def]
      rwa [List.append_nil, ← hsame, ← List.map_append] at hasks
    · have hstops := hwalk.trans (.stops t ht (.stays (stop t ht)))
      rw [List.append_nil] at hstops
      exact ihs t ht said later hstops (hstop t ht later)

end Rules

/-! ### Actions -/

section Actions

open PageSide (Action)

variable {P : PageSide} {K : Backend P.signature} {W : Diary K → Nat → Pause P.signature → Prop}
  {diary : Diary K} {now : Nat}

theorem paces_andThen {Q : Diary K → Nat → Except Error β → Prop} {a : P.Action α} {f : α → P.Action β} :
    Paces W Q (a >>= f).outcome diary now ↔ Paces W (fun diary now r => match r with
      | .ok v => Paces W Q (f v).outcome diary now
      | .error e => Q diary now (.error e)) a.outcome diary now := by
  rw [outcome_bind, paces_bind]
  constructor
  · intro h
    refine h.mono fun diary now r hr => ?_
    cases r <;> exact hr
  · intro h
    refine h.mono fun diary now r hr => ?_
    cases r <;> exact hr

theorem paces_attempt {Q : Diary K → Nat → Except Error β → Prop} {a : P.Action α}
    {f : Except Error α → P.Action β} : Paces W Q (a.attempt >>= f).outcome diary now ↔
      Paces W (fun diary now r => Paces W Q (f r).outcome diary now) a.outcome diary now := by
  rw [outcome_attempt_bind, paces_bind]

theorem paces_ask {Q : Diary K → Nat → Except Error β → Prop} {q : P.Query} {f : P.Answer q → P.Action β}
    (hf : ∀ w, Paces W Q (f (K.answer q w).1).outcome (diary ++ [⟨now, ⟨w, q⟩⟩]) now) :
    Paces W Q (Action.query q >>= f).outcome diary now := by
  have hsame := outcome_lift_bind (B := P) (Activity.query (S := P.signature) q) f
  exact hsame ▸ paces_query hf

theorem paces_actionClock {Q : Diary K → Nat → Except Error β → Prop} {f : Nat → P.Action β}
    (hf : Paces W Q (f now).outcome diary now) : Paces W Q (Action.clock >>= f).outcome diary now := by
  have hsame := outcome_perform_bind (B := P) .clock f
  exact hsame ▸ paces_clock hf

theorem paces_actionSleep {Q : Diary K → Nat → Except Error β → Prop} {ms : Nat} {f : Unit → P.Action β}
    (hW : W diary now ⟨.sleepUntil (now + ms), []⟩) (hf : Paces W Q (f ()).outcome diary (now + ms)) :
    Paces W Q (Action.sleep ms >>= f).outcome diary now := by
  rw [Action.sleep, outcome_lift_bind]
  exact paces_sleep hW hf

theorem paces_actionSilent {Q : Diary K → Nat → Except Error β → Prop} {r : Request P.signature}
    {f : r.Answer → P.Action β} (hr : r.waits = false) (hquestion : ∀ q, r ≠ .query q)
    (hf : ∀ a, Paces W Q (f a).outcome diary now) : Paces W Q (Action.perform r >>= f).outcome diary now := by
  rw [outcome_perform_bind]
  exact paces_silent hr hquestion hf

section Guard

variable {Q : Diary K → Nat → Except Error β → Prop} {token : Token} {halt : P.Task (Except Error β)}
  (hhalt : ∀ later, Paces W Q halt diary later)
include hhalt

theorem paces_guard_ask {q : P.Query} {f : P.Answer q → P.Action β}
    (hf : ∀ w, Paces W Q (guard token halt (f (K.answer q w).1).outcome) (diary ++ [⟨now, ⟨w, q⟩⟩]) now) :
    Paces W Q (guard token halt (Action.query q >>= f).outcome) diary now := by
  have hsame := outcome_lift_bind (B := P) (Activity.query (S := P.signature) q) f
  exact hsame ▸ paces_guard_query hhalt hf

theorem paces_guard_actionClock {f : Nat → P.Action β}
    (hf : Paces W Q (guard token halt (f now).outcome) diary now) :
    Paces W Q (guard token halt (Action.clock >>= f).outcome) diary now := by
  have hsame := outcome_perform_bind (B := P) .clock f
  exact hsame ▸ paces_guard_clock hhalt hf

theorem paces_guard_actionSleep {ms : Nat} {f : Unit → P.Action β}
    (hW : W diary now ⟨.sleepUntil (now + ms), [token]⟩)
    (hf : Paces W Q (guard token halt (f ()).outcome) diary (now + ms)) :
    Paces W Q (guard token halt (Action.sleep ms >>= f).outcome) diary now := by
  rw [Action.sleep, outcome_lift_bind]
  exact paces_guard_sleep hhalt hW hf

end Guard

theorem paces_ofExcept {Q : Diary K → Nat → Except Error α → Prop} {r : Except Error α}
    (h : Q diary now r) : Paces W Q (Action.ofExcept r : P.Action α).outcome diary now := by
  rw [outcome_ofExcept]
  exact h

/-- The action takes no time, and asks only what is of such a kind. -/
def Brief (K : Backend P.signature) (kind : P.Query → Prop) (a : P.Action α) : Prop :=
  ∀ (W : Diary K → Nat → Pause P.signature → Prop) (diary : Diary K) (now : Nat),
    Paces W (fun last later _ => later = now ∧ ∃ more, last = diary ++ more ∧
      ∀ e ∈ more, kind e.moment.query) a.outcome diary now

namespace Brief

variable {kind : P.Query → Prop}

theorem pure (v : α) : Brief K kind (Pure.pure v : P.Action α) :=
  fun _ diary _ => ⟨rfl, [], (List.append_nil diary).symm, nofun⟩

theorem throw (e : Error) : Brief K kind (MonadExcept.throw e : P.Action α) :=
  fun _ diary _ => ⟨rfl, [], (List.append_nil diary).symm, nofun⟩

theorem ofExcept (r : Except Error α) : Brief K kind (Action.ofExcept r : P.Action α) :=
  fun _ diary _ => paces_ofExcept ⟨rfl, [], (List.append_nil diary).symm, nofun⟩

/-- What comes after a part that takes no time is no later. -/
theorem after {p : Activity P.signature (Except Error α)}
    {more : Diary K} (hmore : ∀ e ∈ more, kind e.moment.query)
    (h : Paces W (fun last later _ => later = now ∧ ∃ rest, last = (diary ++ more) ++ rest ∧
      ∀ e ∈ rest, kind e.moment.query) p (diary ++ more) now) :
    Paces W (fun last later _ => later = now ∧ ∃ more, last = diary ++ more ∧
      ∀ e ∈ more, kind e.moment.query) p (diary ++ more) now := by
  refine h.mono ?_
  rintro last later r ⟨rfl, rest, rfl, hrest⟩
  refine ⟨rfl, more ++ rest, List.append_assoc _ _ _, ?_⟩
  intro e he
  rcases List.mem_append.mp he with he | he
  · exact hmore e he
  · exact hrest e he

theorem bind {a : P.Action α} {f : α → P.Action β} (ha : Brief K kind a) (hf : ∀ v, Brief K kind (f v)) :
    Brief K kind (a >>= f) := by
  intro W diary now
  refine paces_andThen.mpr ((ha W diary now).mono ?_)
  rintro last later r ⟨rfl, more, rfl, hmore⟩
  cases r with
  | ok v => exact after hmore (hf v W _ _)
  | error e => exact ⟨rfl, more, rfl, hmore⟩

theorem ask {q : P.Query} {f : P.Answer q → P.Action β} (hq : kind q)
    (hf : ∀ w, Brief K kind (f (K.answer q w).1)) : Brief K kind (Action.query q >>= f) := by
  intro W diary now
  refine paces_ask fun w => after ?_ (hf w W _ _)
  intro e he
  rw [List.mem_singleton.mp he]
  exact hq

theorem mapM {f : α → P.Action β} (hf : ∀ v, Brief K kind (f v)) (vs : List α) :
    Brief K kind (vs.mapM f) := by
  induction vs with
  | nil => exact .pure []
  | cons v rest ih =>
    rw [List.mapM_cons]
    exact (hf v).bind fun b => ih.bind fun bs => .pure _

theorem forM {f : α → P.Action PUnit} (hf : ∀ v, Brief K kind (f v)) (vs : List α) :
    Brief K kind (vs.forM f) := by
  induction vs with
  | nil => exact .pure ()
  | cons v rest ih => exact (hf v).bind fun _ => ih

end Brief

end Actions

/-! ### Runs -/

/-- What an activity writes until it ends or has to wait. -/
def Timeline.entries (B : Backend S) (p : Activity S α) (tl : Timeline S B.World) : Diary B :=
  (tl.questions B p).map (⟨tl.clock, ·⟩)

namespace Run

/-- What the foreground writes in the next turn; nothing, unless the turn is its own. -/
def notes (B : Backend S) (run : Run S B.World α) : Diary B :=
  if run.timeline.ready.isEmpty && run.timeline.canResume run.main then
    run.timeline.entries B (onward run.timeline run.main)
  else []

/-- What the foreground writes in so many turns. -/
def diary (B : Backend S) : Nat → Run S B.World α → Diary B
  | 0, _ => []
  | turns + 1, run => match run.step B with
    | some next => run.notes B ++ next.diary B turns
    | none => []

/-- The foreground has ended at this time, or has waited since then. -/
def Since (run : Run S B.World α) (since : Nat) : Prop :=
  match run.main with
  | .done _ => run.timeline.clock = since
  | .ask r _ _ _ _ => r.waits = true ∧
    ∀ time, r = .sleepUntil time → since ≤ time ∧ run.timeline.clock ≤ time

/-- The foreground goes on as is said, with such a diary so far. -/
def Paced (W : Diary B → Nat → Pause S → Prop) (Q : Diary B → Nat → α → Prop) (diary : Diary B)
    (run : Run S B.World α) : Prop :=
  ∃ since, Paces W Q run.main diary since ∧ run.Since since

end Run

/-- The diary of a foreground activity after so many turns. -/
def diaryOf (B : Backend S) (p : Activity S α) (tl : Timeline S B.World) (turns : Nat) : Diary B :=
  tl.entries B p ++ (Run.start B p tl none).diary B turns

section Paced

variable {W : Diary B → Nat → Pause S → Prop} {Q : Diary B → Nat → α → Prop} {diary : Diary B}
  {run next : Run S B.World α} {p : Activity S α} {tl : Timeline S B.World}

/-- Whoever cannot go on sleeping for a time waits for a later one. -/
theorem lt_of_asleep {time : Nat} (hp : Timeline.perform B tl (.sleepUntil time) = none) :
    tl.clock < time := by
  by_contra hcome
  simp [Timeline.perform, Nat.le_of_not_lt hcome] at hp

theorem entries_ask {r : Request S} {ws : List Token} {duties : List (Duty S)}
    {next : r.Answer → Activity S α} {stop : (t : Token) → t ∈ ws → Activity S α} {a : r.Answer}
    {after : Timeline S B.World} (hp : Timeline.perform B tl r = some (a, after)) :
    tl.entries B (.ask r ws duties next stop) = r.entries tl.clock tl.world ++ after.entries B (next a) := by
  simp only [Timeline.entries, Timeline.questions, hp, Request.entries, List.map_append,
    (Timeline.perform_instant hp).clock]

/-- An activity that is let go on writes into its diary what it asks. -/
theorem paced_advance (h : Paces W Q p diary tl.clock) (limit : Option Nat) :
    Run.Paced W Q (diary ++ tl.entries B p) ⟨(advance B p tl).1, (advance B p tl).2, limit⟩ := by
  induction p generalizing diary tl with
  | done a =>
    refine ⟨tl.clock, ?_, rfl⟩
    rw [Timeline.entries, Timeline.questions, List.map_nil, List.append_nil]
    exact h
  | ask r ws duties next stop ihn ihs =>
    rcases hp : Timeline.perform B tl r with _ | ⟨a, after⟩
    · have hnone : tl.entries B (.ask r ws duties next stop) = [] := by
        simp only [Timeline.entries, Timeline.questions, hp, List.map_nil]
      rw [(Timeline.stuck hp).1, hnone, List.append_nil]
      refine ⟨tl.clock, h, waits_of_perform hp, ?_⟩
      rintro time rfl
      exact ⟨Nat.le_of_lt (lt_of_asleep hp), Nat.le_of_lt (lt_of_asleep hp)⟩
    · have hlapses : r.Lapses a tl.clock tl.clock := by
        cases Timeline.performs hp with
        | clock => exact ⟨rfl, rfl⟩
        | sleepUntil hcome => exact (Nat.max_eq_left hcome).symm
        | take => trivial
        | _ => rfl
      have hnext := h.2.1 a _ _ _ (perform_leads hp) hlapses
      rw [← (Timeline.perform_instant hp).clock] at hnext
      rw [entries_ask hp, ← List.append_assoc, ← (Timeline.perform_instant hp).clock]
      simp only [advance, hp]
      exact ihn a hnext

/-- Whom nobody interrupts, and whose request is not answered, cannot go on. -/
theorem canResume_of_stuck {r : Request S} {ws : List Token} {duties : List (Duty S)}
    {next : r.Answer → Activity S α} {stop : (t : Token) → t ∈ ws → Activity S α}
    (hstop : ws.find? tl.isCancelled = none) (hp : Timeline.perform B tl r = none) :
    tl.canResume (.ask r ws duties next stop) = false := by
  have hquiet : ws.any tl.isCancelled = false := by
    rw [List.any_eq_false]
    exact List.find?_eq_none.mp hstop
  simp only [canResume, hquiet, Bool.false_or]
  cases r with
  | sleepUntil time => simpa [Timeline.perform] using hp
  | take inbox =>
    cases hm : tl.messages inbox with
    | nil => simp [hm]
    | cons m rest => simp [Timeline.perform, hm] at hp
  | forever => rfl
  | _ => exact absurd hp (Option.some_ne_none _)

/-- So does one that has waited and goes on. -/
theorem paced_resume {since : Nat} (h : Paces W Q run.main diary since) (hsince : run.Since since)
    (hcan : run.timeline.canResume run.main = true) :
    Run.Paced W Q (diary ++ run.timeline.entries B (onward run.timeline run.main))
      ⟨(resume B run.main run.timeline).1, (resume B run.main run.timeline).2, run.limit⟩ := by
  obtain ⟨main, tl, limit⟩ := run
  cases main with
  | done a => exact absurd hcan Bool.false_ne_true
  | ask r ws duties next stop =>
    obtain ⟨hwaits, hasleep⟩ := hsince
    rw [Timeline.resume_eq]
    rcases hstop : ws.find? tl.isCancelled with _ | t
    · rw [Timeline.onward_of_find_none hstop]
      rcases hp : Timeline.perform B tl r with _ | ⟨a, after⟩
      · exact absurd ((canResume_of_stuck hstop hp).symm.trans hcan) Bool.false_ne_true
      · -- it writes nothing itself, and no time has passed since it could go on
        have hlapses : r.Lapses a since tl.clock := by
          cases Timeline.performs hp with
          | @sleepUntil time hcome =>
            obtain ⟨hfirst, hlast⟩ := hasleep time rfl
            have hnow : tl.clock = time := Nat.le_antisymm hlast hcome
            show tl.clock = max since time
            omega
          | take => trivial
          | _ => exact absurd hwaits Bool.false_ne_true
        have hsilent (now : Nat) : r.entries now tl.world = [] := by
          cases r with
          | query q => exact absurd hwaits Bool.false_ne_true
          | _ => rfl
        have hnext := h.2.1 a _ _ _ (perform_leads hp) hlapses
        rw [hsilent, List.append_nil, ← (Timeline.perform_instant hp).clock] at hnext
        rw [entries_ask hp, hsilent, List.nil_append]
        simp only [advance, hp]
        exact paced_advance hnext limit
    · rw [Timeline.onward_interrupted hstop]
      exact paced_advance (h.2.2 t _ tl.clock) limit

/-- One turn, whoever takes it. -/
theorem Run.Paced.step (h : run.Paced W Q diary) (hstep : run.step B = some next) :
    next.Paced W Q (diary ++ run.notes B) := by
  obtain ⟨since, hpaces, hsince⟩ := h
  unfold Run.step at hstep
  unfold Run.notes
  split at hstep
  · rename_i id rest hready
    obtain rfl := Option.some.inj hstep
    rw [hready, List.isEmpty_cons, Bool.false_and, if_neg Bool.false_ne_true, List.append_nil]
    refine ⟨since, hpaces, ?_⟩
    have hclock := (Timeline.runTask_instant (B := B) { run.timeline with ready := rest } id).clock
    unfold Run.Since at hsince ⊢
    dsimp only
    rw [hclock]
    exact hsince
  · rename_i hready
    rw [hready, List.isEmpty_nil, Bool.true_and]
    split at hstep
    · cases hstep
    · split at hstep
      · rename_i hcan
        obtain rfl := Option.some.inj hstep
        rw [if_pos hcan]
        exact paced_resume hpaces hsince hcan
      · rename_i hgoing hcan
        rw [if_neg hcan, List.append_nil]
        split at hstep
        · cases hstep
        · split at hstep
          · rename_i time htime
            obtain rfl := Option.some.inj hstep
            refine ⟨since, hpaces, ?_⟩
            unfold Run.Since at hsince ⊢
            dsimp only
            split at hsince
            · rename_i a hmain
              exact absurd (by rw [Run.isDone, hmain]) hgoing
            · rename_i r ws duties next stop hmain
              refine ⟨hsince.1, ?_⟩
              rintro wake rfl
              refine ⟨(hsince.2 wake rfl).1, ?_⟩
              -- the clock moves to no later a time than the foreground waits for
              have hleast := (List.min?_eq_some_iff.mp htime).2 wake
              refine hleast ?_
              rw [hmain]
              exact List.mem_append_left _ (List.mem_append_left _ List.mem_cons_self)
          · cases hstep

theorem Run.Paced.finish (h : run.Paced W Q diary) (turns : Nat) :
    (run.finish B turns).Paced W Q (diary ++ run.diary B turns) := by
  induction turns generalizing run diary with
  | zero =>
    rw [Run.diary, List.append_nil]
    exact h
  | succ turns ih =>
    rcases hstep : run.step B with _ | next
    · rw [Run.finish_of_step_none hstep, Run.diary, hstep, List.append_nil]
      exact h
    · rw [Run.finish_of_step hstep, Run.diary, hstep, ← List.append_assoc]
      exact ih (h.step hstep)

/-- Whatever goes on in the background, the foreground goes on as is read off it. -/
theorem paced_of_run (h : Paces W Q p [] tl.clock) (turns : Nat) :
    ((Run.start B p tl none).finish B turns).Paced W Q (diaryOf B p tl turns) := by
  have hstart := paced_advance h none
  rw [List.nil_append] at hstart
  exact hstart.finish turns

end Paced

/-! ### Nobody sleeps for good -/

/-- However the run goes on, the background comes to rest: the queue is empty in the end, and then nobody
in the background could go on. -/
structure Run.Restful (B : Backend S) (run : Run S B.World α) : Prop where
  rests : ∀ turns, ∃ more, (run.finish B (turns + more)).timeline.ready = []
  queued : ∀ turns, (run.finish B turns).timeline.ready = [] →
    ∀ task ∈ (run.finish B turns).timeline.tasks,
      (run.finish B turns).timeline.canResume task.activity = false

namespace Run

variable {run next : Run S B.World α}

theorem Restful.finish (h : run.Restful B) (turns : Nat) : (run.finish B turns).Restful B := by
  refine ⟨fun more => ?_, fun more => ?_⟩
  · obtain ⟨rest, hrest⟩ := h.rests (turns + more)
    refine ⟨rest, ?_⟩
    rw [← Run.finish_add, ← Nat.add_assoc]
    exact hrest
  · rw [← Run.finish_add]
    exact h.queued (turns + more)

/-- A run that is over has come to rest. -/
theorem restful_of_over (turns : Nat) (hover : (run.finish B turns).step B = none)
    (hqueued : ∀ before ≤ turns, (run.finish B before).timeline.ready = [] →
      ∀ task ∈ (run.finish B before).timeline.tasks,
        (run.finish B before).timeline.canResume task.activity = false) : run.Restful B := by
  have hlast (more : Nat) : run.finish B (turns + more) = run.finish B turns := by
    rw [Run.finish_add, Run.finish_of_step_none hover]
  have hready : (run.finish B turns).timeline.ready = [] := by
    rcases hready : (run.finish B turns).timeline.ready with _ | ⟨id, rest⟩
    · rfl
    · exact absurd (hover.symm.trans (Run.step_of_ready hready)) nofun
  refine ⟨fun before => ?_, fun before => ?_⟩
  · refine ⟨turns, ?_⟩
    rw [Nat.add_comm, hlast]
    exact hready
  · by_cases hle : before ≤ turns
    · exact hqueued before hle
    · obtain ⟨more, rfl⟩ := Nat.exists_eq_add_of_le (Nat.le_of_not_le hle)
      rw [hlast]
      exact hqueued turns (Nat.le_refl turns)

/-- While somebody in the background is queued, the foreground stays where it is. -/
theorem exists_lull (h : run.Restful B) : ∃ turns, (run.finish B turns).timeline.ready = [] ∧
    (run.finish B turns).main = run.main ∧
    (run.finish B turns).timeline.clock = run.timeline.clock ∧ (run.finish B turns).limit = run.limit := by
  obtain ⟨more, hmore⟩ := h.rests 0
  rw [Nat.zero_add] at hmore
  clear h
  induction more generalizing run with
  | zero => exact ⟨0, hmore, rfl, rfl, rfl⟩
  | succ more ih =>
    rcases hready : run.timeline.ready with _ | ⟨id, rest⟩
    · exact ⟨0, hready, rfl, rfl, rfl⟩
    · have hstep := Run.step_of_ready (B := B) hready
      rw [Run.finish_of_step hstep] at hmore
      obtain ⟨turns, hempty, hmain, hclock, hlimit⟩ := ih hmore
      refine ⟨turns + 1, ?_⟩
      rw [Run.finish_of_step hstep]
      refine ⟨hempty, hmain, hclock.trans ?_, hlimit⟩
      exact (Timeline.runTask_instant (B := B) { run.timeline with ready := rest } id).clock

/-- Whoever has gone on as far as possible waits at most for a later time. -/
theorem lt_wake_advance (p : Activity S α) (tl : Timeline S B.World) :
    ∀ later ∈ wakeTime (advance B p tl).1, tl.clock < later := by
  induction p generalizing tl with
  | done a => exact fun later h => absurd h nofun
  | ask r ws duties next stop ihn ihs =>
    rcases hp : Timeline.perform B tl r with _ | ⟨a, after⟩
    · simp only [advance, hp]
      cases r with
      | sleepUntil time =>
        intro later hlater
        obtain rfl : time = later := Option.some.inj hlater
        exact lt_of_asleep hp
      | _ => exact fun later h => absurd h (Option.not_mem_none later)
    · simp only [advance, hp]
      rw [← (Timeline.perform_instant hp).clock]
      exact ihn a after

/-- A sleep that nothing interrupts ends at its time, and from then on the foreground waits at most for a
later one. -/
theorem exists_woken {time : Nat} (h : run.Restful B) (hlimit : run.limit = none)
    (hwake : wakeTime run.main = some time) (hwatched : watched run.main = [])
    (hclock : run.timeline.clock ≤ time) :
    ∃ turns, (run.finish B turns).timeline.clock = time ∧
      ∀ later ∈ wakeTime (run.finish B turns).main, time < later := by
  obtain ⟨left, hleft⟩ : ∃ left, left = time - run.timeline.clock := ⟨_, rfl⟩
  -- each move of the clock brings the time nearer
  induction left using Nat.strong_induction_on generalizing run with
  | _ left ih =>
    obtain ⟨turns, hready, hmain, hsame, hlimit'⟩ := exists_lull h
    have hrest := h.finish turns
    have hidle := h.queued turns hready
    revert hready hmain hsame hlimit' hrest hidle
    generalize hmid : run.finish B turns = mid
    intro hready hmain hsame hlimit' hrest hidle
    suffices hgoes : ∃ more, (mid.finish B more).timeline.clock = time ∧
        ∀ later ∈ wakeTime (mid.finish B more).main, time < later by
      obtain ⟨more, hmore⟩ := hgoes
      refine ⟨turns + more, ?_⟩
      rw [Run.finish_add, hmid]
      exact hmore
    have hmidWake : wakeTime mid.main = some time := hmain ▸ hwake
    rcases hcan : mid.timeline.canResume mid.main with _ | _
    · obtain ⟨next, hstep, hle, -, hwho⟩ :=
        Run.step_of_waits hready hmidWake hcan (hlimit'.trans hlimit)
      have hlater : mid.timeline.clock < next := by
        rcases hwho with rfl | ⟨task, htask, hwake'⟩
        · exact lt_wake hcan next hmidWake
        · exact lt_wake (hidle task htask) next hwake'
      have hfewer : time - next < left := by omega
      have hnext := hrest.finish 1
      rw [Run.finish_of_step hstep] at hnext
      obtain ⟨more, hmore⟩ := ih (time - next) hfewer hnext (hlimit'.trans hlimit) hmidWake
        (hmain ▸ hwatched) hle rfl
      refine ⟨more + 1, ?_⟩
      rw [Run.finish_of_step hstep]
      exact hmore
    · have hcome : time ≤ mid.timeline.clock := by
        have hwatchedMid : watched mid.main = [] := hmain ▸ hwatched
        cases hm : mid.main with
        | done a => simp [hm, wakeTime] at hmidWake
        | ask r ws duties next stop =>
          obtain rfl : ws = [] := by simpa [hm, watched] using hwatchedMid
          cases r with
          | sleepUntil wake =>
            obtain rfl : wake = time := by simpa [hm, wakeTime] using hmidWake
            simpa [hm, canResume] using hcan
          | _ => simp [hm, wakeTime] at hmidWake
      have hnow : mid.timeline.clock = time := Nat.le_antisymm (hsame.trans_le hclock) hcome
      refine ⟨1, ?_⟩
      rw [Run.finish_of_step (Run.step_of_canResume hready hcan)]
      refine ⟨(Timeline.resume_instant mid.main mid.timeline).clock.trans hnow, ?_⟩
      show ∀ later ∈ wakeTime (resume B mid.main mid.timeline).1, time < later
      rw [← hnow, Timeline.resume_eq]
      exact lt_wake_advance _ _

end Run

end Wayfind.Activity
