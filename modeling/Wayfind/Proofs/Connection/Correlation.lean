/-
Replies reach the commands they belong to.

A `Course` is any sequence of steps of a connection, with the state before and after each.
Replies may be late, repeated, in any order or for nobody; still a command ends at most
once, and with a result or a refusal only if a reply with its own number brought it while
the command was registered.  Numbers are given out once and a command is registered once,
so no number is answered twice: that is what the invariant (`Sound`) carries along.
-/
import Mathlib
import Wayfind.Proofs.Connection.Step

namespace Wayfind.Connection

open Protocol (Event Incoming Refusal Reply)

/-- A step, with the connection before and after it. -/
structure Moment where
  before : Connection
  act : Act
  after : Connection

/-- A text came in that is a reply with such a number, and a command was registered under it. -/
def Moment.Answers (m : Moment) (id : CommandId) (r : Reply) : Prop :=
  (∃ text, m.act = .receive text ∧ Incoming.ofText text = .reply r) ∧ r.id = id ∧
    id ∈ m.before.registry

/-- The command of a number ended in this step. -/
def Moment.Finishes (m : Moment) (id : CommandId) : Prop :=
  m.before.outcome? id = none ∧ ∃ outcome, m.after.outcome? id = some outcome

/-- The steps of a connection since it was made, and how it is after them. -/
inductive Course : List Moment → Connection → Prop
  | opened : Course [] .opened
  | step {past : List Moment} {c after : Connection} {act : Act} (h : Course past c)
      (hstep : Step c act after) : Course (past ++ [⟨c, act, after⟩]) after

/-- A reply has answered the command of a number. -/
def Answered (past : List Moment) (id : CommandId) (r : Reply) : Prop := ∃ m ∈ past, m.Answers id r

/-- What an outcome of a command tells of the past: it is that of a reply to the command, or tells
that something else has happened to it. -/
def Warranted (past : List Moment) (d : Command) (outcome : Except Error Json) : Prop :=
  (∃ r, Answered past d.id r ∧ outcome = outcomeOf d.method r) ∨
    (∃ text, outcome = .error (.webSocket text)) ∨ ∃ text, outcome = .error (.timeout text)

/-- The command of a number is registered, or was. -/
def Begun (c : Connection) (id : CommandId) : Prop :=
  ∃ d ∈ c.commands, d.id = id ∧ d.stage ≠ .numbered

/-- What holds after every course. -/
structure Sound (past : List Moment) (c : Connection) : Prop where
  distinct : c.Distinct
  below : ∀ d ∈ c.commands, d.id < c.nextId
  listed : ∀ id ∈ c.registry, c.Begun id
  mail : ∀ d ∈ c.commands, ∀ r, d.mail = .reply r → Answered past d.id r
  ended : ∀ d ∈ c.commands, ∀ outcome, d.stage = .ended outcome → Warranted past d outcome
  /-- Whoever was answered is registered no longer, and will not be again. -/
  answered : ∀ m ∈ past, ∀ id r, m.Answers id r → id ∉ c.registry ∧ c.Begun id
  single : past.Pairwise fun m m' => ∀ id r r', m.Answers id r → ¬ m'.Answers id r'
  final : ∀ m ∈ past, ∀ id outcome, m.after.outcome? id = some outcome → c.outcome? id = some outcome

/-! ### Outcomes -/

theorem outcome?_eq_some {c : Connection} (hdistinct : c.Distinct) {id : CommandId}
    {outcome : Except Error Json} :
    c.outcome? id = some outcome ↔ ∃ d ∈ c.commands, d.id = id ∧ d.stage = .ended outcome := by
  constructor
  · intro h
    unfold Connection.outcome? at h
    cases hfound : c.command? id with
    | none =>
      rw [hfound] at h
      exact absurd h nofun
    | some d =>
      rw [hfound] at h
      obtain ⟨hd, hid⟩ := mem_of_command? hfound
      refine ⟨d, hd, hid, ?_⟩
      cases hs : d.stage with
      | ended other =>
        simp only [Option.bind_eq_bind, Option.bind_some, hs] at h
        rw [Option.some.inj h]
      | numbered | registered | waiting | abandoned =>
        simp only [Option.bind_eq_bind, Option.bind_some, hs] at h
        exact absurd h nofun
  · rintro ⟨d, hd, rfl, hs⟩
    unfold Connection.outcome?
    rw [hdistinct.command? hd]
    simp only [Option.bind_eq_bind, Option.bind_some, hs]

section Step

variable {past : List Moment} {c after : Connection} {act : Act} {move : Command → Command}
  {added : List Command}

theorem Answered.append {id : CommandId} {r : Reply} (h : Answered past id r) (m : Moment) :
    Answered (past ++ [m]) id r := by
  obtain ⟨m', hm', hanswers⟩ := h
  exact ⟨m', List.mem_append_left _ hm', hanswers⟩

theorem Warranted.append {d : Command} {outcome : Except Error Json} (h : Warranted past d outcome)
    (m : Moment) : Warranted (past ++ [m]) d outcome := by
  rcases h with ⟨r, hr, houtcome⟩ | hother
  · exact Or.inl ⟨r, hr.append m, houtcome⟩
  · exact Or.inr hother

/-- A command after a step is one from before that has made its move, or a new one. -/
theorem Progress.mem (h : Progress c act after move added) {d' : Command}
    (hd' : d' ∈ after.commands) :
    (∃ d ∈ c.commands, d' = move d) ∨
      ∃ method, d' = ⟨c.nextId, method, .numbered, .nothing⟩ ∧ after.nextId = c.nextId + 1 := by
  rw [h.commands] at hd'
  rcases List.mem_append.mp hd' with hd' | hd'
  · obtain ⟨d, hd, rfl⟩ := List.mem_map.mp hd'
    exact Or.inl ⟨d, hd, rfl⟩
  · rcases h.added_ with ⟨rfl, -⟩ | ⟨method, rfl, hnext⟩
    · exact absurd hd' List.not_mem_nil
    · exact Or.inr ⟨method, List.mem_singleton.mp hd', hnext⟩

theorem Progress.mem_move (h : Progress c act after move added) {d : Command}
    (hd : d ∈ c.commands) : move d ∈ after.commands := by
  rw [h.commands]
  exact List.mem_append_left _ (List.mem_map_of_mem hd)

theorem Progress.nextId_le (h : Progress c act after move added) : c.nextId ≤ after.nextId := by
  rcases h.added_ with ⟨-, hnext⟩ | ⟨method, -, hnext⟩
  · exact Nat.le_of_eq hnext.symm
  · exact hnext ▸ Nat.le_succ c.nextId

theorem Progress.distinct (h : Progress c act after move added) (hdistinct : c.Distinct)
    (hbelow : ∀ d ∈ c.commands, d.id < c.nextId) : after.Distinct := by
  have hids : (c.commands.map move).map (·.id) = c.commands.map (·.id) := by
    rw [List.map_map]
    exact List.map_congr_left fun d hd => (h.moves d hd).id
  unfold Distinct
  rw [h.commands, List.map_append, hids]
  rcases h.added_ with ⟨rfl, -⟩ | ⟨method, rfl, -⟩
  · rw [List.map_nil, List.append_nil]
    exact hdistinct
  · refine List.Nodup.append hdistinct (List.nodup_singleton _) ?_
    intro id hid hnew
    obtain ⟨d, hd, rfl⟩ := List.mem_map.mp hid
    exact absurd (List.mem_singleton.mp hnew) (Nat.ne_of_lt (hbelow d hd))

theorem Progress.begun (h : Progress c act after move added) {id : CommandId} (hbegun : c.Begun id) :
    after.Begun id := by
  obtain ⟨d, hd, rfl, hs⟩ := hbegun
  exact ⟨move d, h.mem_move hd, (h.moves d hd).id, (h.moves d hd).begun hs⟩

/-- An outcome stays. -/
theorem Progress.outcome? (h : Progress c act after move added) (hdistinct : c.Distinct)
    (hafter : after.Distinct) {id : CommandId} {outcome : Except Error Json}
    (houtcome : c.outcome? id = some outcome) : after.outcome? id = some outcome := by
  obtain ⟨d, hd, rfl, hs⟩ := (outcome?_eq_some hdistinct).mp houtcome
  exact (outcome?_eq_some hafter).mpr ⟨move d, h.mem_move hd, (h.moves d hd).id, (h.moves d hd).ended hs⟩

/-- To be answered takes a command out of the registry. -/
theorem registry_of_answers (hstep : Step c act after) {id : CommandId} {r : Reply}
    (hanswers : Moment.Answers ⟨c, act, after⟩ id r) : id ∉ after.registry := by
  obtain ⟨⟨text, rfl, hreply⟩, rfl, hlisted⟩ := hanswers
  cases hstep
  intro hid
  rw [receive, hreply] at hid
  dsimp only [reply] at hid
  rw [if_pos (List.contains_iff_mem.mpr hlisted)] at hid
  exact (mem_unregister.mp hid).2 rfl

/-- A command that was registered has begun. -/
theorem begun_of_register {id : CommandId} (hstep : Step c (.register id) after) :
    after.Begun id := by
  cases hstep with
  | @register d hd hs =>
    refine ⟨{ d with stage := .registered }, List.mem_map.mpr ⟨d, hd, if_pos rfl⟩, rfl, nofun⟩

variable (after) in
/-- What a command has come to in a step goes back to the step, or to the past. -/
theorem Sound.moved (h : Sound past c) {d d' : Command} (hd : d ∈ c.commands)
    (hmove : d.Moves c.registry act d') (hreceives : ∀ text r, act = .receive text →
      Incoming.ofText text = .reply r → r.id = d.id → d.id ∈ c.registry →
        Answered (past ++ [⟨c, act, after⟩]) d.id r) :
    (∀ r, d'.mail = .reply r → Answered (past ++ [⟨c, act, after⟩]) d'.id r) ∧
      ∀ outcome, d'.stage = .ended outcome →
        Warranted (past ++ [⟨c, act, after⟩]) d' outcome := by
  have hmail : ∀ r, d.mail = .reply r → Answered (past ++ [⟨c, act, after⟩]) d.id r :=
    fun r hr => (h.mail d hd r hr).append _
  have hended : ∀ outcome, d.stage = .ended outcome →
      Warranted (past ++ [⟨c, act, after⟩]) d outcome :=
    fun outcome hs => (h.ended d hd outcome hs).append _
  cases hmove with
  | stays => exact ⟨hmail, hended⟩
  | registers | writes | abandons => exact ⟨hmail, nofun⟩
  | fails =>
    refine ⟨hmail, fun outcome hs => ?_⟩
    obtain rfl := Stage.ended.inj hs
    exact Or.inr (Or.inl ⟨_, rfl⟩)
  | expires =>
    refine ⟨hmail, fun outcome hs => ?_⟩
    obtain rfl := Stage.ended.inj hs
    exact Or.inr (Or.inr ⟨_, rfl⟩)
  | collects _ harrived =>
    refine ⟨hmail, fun outcome hs => ?_⟩
    obtain rfl := Stage.ended.inj hs
    unfold Command.arrived at harrived
    split at harrived
    · exact absurd harrived nofun
    · rename_i r hr
      exact Or.inl ⟨r, hmail r hr, (Option.some.inj harrived).symm⟩
    · exact Or.inr (Or.inl ⟨_, (Option.some.inj harrived).symm⟩)
  | receives hact hreply hid hlisted =>
    refine ⟨fun r hr => ?_, hended⟩
    obtain rfl := Mail.reply.inj hr
    exact hreceives _ _ hact hreply hid hlisted
  | severs => exact ⟨nofun, hended⟩

/-- Every step keeps what holds after a course. -/
theorem Sound.step (h : Sound past c) (hstep : Step c act after) :
    Sound (past ++ [⟨c, act, after⟩]) after := by
  obtain ⟨move, added, hprogress⟩ := hstep.progress h.distinct
  have hdistinct : after.Distinct := hprogress.distinct h.distinct h.below
  have hmoved := fun d hd => h.moved after hd (hprogress.moves d hd)
    fun text r hact hreply hid hlisted =>
      ⟨⟨c, act, after⟩, List.mem_append_right _ (List.mem_singleton_self _), ⟨text, hact, hreply⟩,
        hid, hlisted⟩
  have hlast : ∀ m ∈ past, ∀ id r, m.Answers id r → id ∉ after.registry := by
    intro m hm id r hanswers hid
    obtain ⟨hout, d, hd, rfl, hs⟩ := h.answered m hm id r hanswers
    rcases hprogress.registry d.id hid with hin | rfl
    · exact hout hin
    · -- A command is registered only once.
      generalize hsame : d.id = id at hstep
      cases hstep with
      | @register e he hs' => exact hs (h.distinct.eq hd he hsame ▸ hs')
  constructor
  case distinct => exact hdistinct
  case below =>
    intro d' hd'
    rcases hprogress.mem hd' with ⟨d, hd, rfl⟩ | ⟨method, rfl, hnext⟩
    · rw [(hprogress.moves d hd).id]
      exact Nat.lt_of_lt_of_le (h.below d hd) hprogress.nextId_le
    · exact hnext ▸ Nat.lt_succ_self c.nextId
  case listed =>
    intro id hid
    rcases hprogress.registry id hid with hin | rfl
    · exact hprogress.begun (h.listed id hin)
    · exact begun_of_register hstep
  case mail =>
    intro d' hd'
    rcases hprogress.mem hd' with ⟨d, hd, rfl⟩ | ⟨method, rfl, hnext⟩
    · exact (hmoved d hd).1
    · exact nofun
  case ended =>
    intro d' hd'
    rcases hprogress.mem hd' with ⟨d, hd, rfl⟩ | ⟨method, rfl, hnext⟩
    · exact (hmoved d hd).2
    · exact nofun
  case answered =>
    intro m hm id r hanswers
    rcases List.mem_append.mp hm with hm | hm
    · exact ⟨hlast m hm id r hanswers, hprogress.begun (h.answered m hm id r hanswers).2⟩
    · obtain rfl := List.mem_singleton.mp hm
      exact ⟨registry_of_answers hstep hanswers, hprogress.begun (h.listed id hanswers.2.2)⟩
  case single =>
    refine List.pairwise_append.mpr ⟨h.single, List.pairwise_singleton _ _, ?_⟩
    intro m hm m' hm' id r r' hanswers hanswers'
    obtain rfl := List.mem_singleton.mp hm'
    exact (h.answered m hm id r hanswers).1 hanswers'.2.2
  case final =>
    intro m hm id outcome houtcome
    rcases List.mem_append.mp hm with hm | hm
    · exact hprogress.outcome? h.distinct hdistinct (h.final m hm id outcome houtcome)
    · obtain rfl := List.mem_singleton.mp hm
      exact houtcome

end Step

theorem sound_opened : Sound [] .opened :=
  ⟨List.nodup_nil, nofun, nofun, nofun, nofun, nofun, .nil, nofun⟩

theorem Course.sound {past : List Moment} {c : Connection} (h : Course past c) : Sound past c := by
  induction h with
  | opened => exact sound_opened
  | step _ hstep ih => exact ih.step hstep

/-- The moments of a course follow upon shorter ones. -/
theorem Course.before {past : List Moment} {c : Connection} (h : Course past c) {m : Moment}
    (hm : m ∈ past) : ∃ earlier later, past = earlier ++ m :: later ∧ Course earlier m.before ∧
      Step m.before m.act m.after := by
  induction h with
  | opened => exact absurd hm List.not_mem_nil
  | @step past c after act h hstep ih =>
    rcases List.mem_append.mp hm with hm | hm
    · obtain ⟨earlier, later, rfl, hearlier, hm'⟩ := ih hm
      exact ⟨earlier, later ++ [⟨c, act, after⟩], by rw [List.append_assoc]; rfl, hearlier, hm'⟩
    · obtain rfl := List.mem_singleton.mp hm
      exact ⟨past, [], rfl, h, hstep⟩

/-- A command that has ended does not end again. -/
theorem Course.finishes_once {past : List Moment} {c : Connection} (h : Course past c)
    (id : CommandId) : past.Pairwise fun m m' => m.Finishes id → ¬ m'.Finishes id := by
  induction h with
  | opened => exact .nil
  | @step past c after act h hstep ih =>
    refine List.pairwise_append.mpr ⟨ih, List.pairwise_singleton _ _, ?_⟩
    rintro m hm m' hm' ⟨-, outcome, houtcome⟩ ⟨hnone, -⟩
    obtain rfl := List.mem_singleton.mp hm'
    rw [h.sound.final m hm id outcome houtcome] at hnone
    exact absurd hnone nofun

/-! ### What comes in -/

/-- To change the command of one number leaves the others. -/
theorem command?_modify_ne (c : Connection) {change : Command → Command} {id other : CommandId}
    (hne : other ≠ id) (hchange : ∀ d, (change d).id = d.id) :
    (c.modify other change).command? id = c.command? id := by
  show (c.commands.map fun d => if d.id = other then change d else d).find? (·.id == id) = _
  unfold Connection.command?
  induction c.commands with
  | nil => rfl
  | cons d rest ih =>
    rw [List.map_cons, List.find?_cons, List.find?_cons, ih]
    by_cases hd : d.id = other
    · have hno : (d.id == id) = false := by simpa [hd] using hne
      rw [if_pos hd, hchange, hno]
    · rw [if_neg hd]

/-- A text that comes in concerns one command at most. -/
theorem command?_receive (c : Connection) (text : String) {id : CommandId}
    (hchanged : (c.receive text).command? id ≠ c.command? id) :
    ∃ r, Incoming.ofText text = .reply r ∧ r.id = id ∧ id ∈ c.registry := by
  unfold receive at hchanged
  split at hchanged
  · rename_i r hreply
    unfold reply at hchanged
    by_cases hlisted : c.registry.contains r.id = true
    · rw [if_pos hlisted] at hchanged
      have hid : r.id = id := by
        by_contra hne
        exact hchanged (command?_modify_ne (c.unregister r.id) hne fun _ => rfl)
      exact ⟨r, hreply, hid, hid ▸ List.contains_iff_mem.mp hlisted⟩
    · rw [if_neg hlisted] at hchanged
      exact absurd rfl hchanged
  · exact absurd rfl hchanged
  · exact absurd rfl hchanged

theorem receive_unlisted (c : Connection) {text : String} {r : Reply}
    (hreply : Incoming.ofText text = .reply r) (hid : r.id ∉ c.registry) : c.receive text = c := by
  rw [receive, hreply]
  exact if_neg fun h => hid (List.contains_iff_mem.mp h)

theorem listeners_receive (c : Connection) {text : String} {r : Reply}
    (hreply : Json.Reader.ofText? Reply.reader text = some r) :
    (c.receive text).listeners = c.listeners := by
  have hincoming : Incoming.ofText text = .reply r := by rw [Incoming.ofText, hreply]
  rw [receive, hincoming]
  dsimp only [reply]
  split <;> rfl

/-! ### The whole course -/

/-- Replies and commands of a course belong together. -/
structure Correlated (past : List Moment) (c : Connection) : Prop where
  /-- A command ends once. -/
  once : ∀ id, past.Pairwise fun m m' => m.Finishes id → ¬ m'.Finishes id
  /-- How it has ended stays. -/
  final : ∀ m ∈ past, ∀ id outcome, m.after.outcome? id = some outcome → c.outcome? id = some outcome
  /-- A result was brought by a reply with the command's number. -/
  result : ∀ id v, c.outcome? id = some (.ok v) →
    ∃ m ∈ past, ∃ r, m.Answers id r ∧ r.error = none ∧ r.result = v
  /-- So was a refusal. -/
  refusal : ∀ id text, c.outcome? id = some (.error (.protocol text)) →
    ∃ m ∈ past, ∃ r e method, m.Answers id r ∧ r.error = some e ∧
      text = method ++ ": " ++ e.message ++ " (code: " ++ toString e.code ++ ")"
  /-- No number is answered twice. -/
  single : past.Pairwise fun m m' => ∀ id r r', m.Answers id r → ¬ m'.Answers id r'
  /-- No text reaches two commands; the one that it reaches is the one it answers. -/
  separate : ∀ m ∈ past, ∀ text, m.act = .receive text → ∀ id,
    m.after.command? id ≠ m.before.command? id →
      (∃ r, m.Answers id r) ∧ ∀ id', m.after.command? id' ≠ m.before.command? id' → id' = id
  /-- A reply for nobody who is registered changes nothing. -/
  ignored : ∀ text r, Incoming.ofText text = .reply r → r.id ∉ c.registry → c.receive text = c
  /-- Whatever reads as a reply is no event for anybody. -/
  unheard : ∀ text r, Json.Reader.ofText? Reply.reader text = some r →
    (c.receive text).listeners = c.listeners

/-- However the steps of commands and incoming texts follow upon each other, replies and commands
belong together. -/
theorem correlated_of_course {past : List Moment} {c : Connection} (h : Course past c) :
    Correlated past c := by
  have hsound := h.sound
  constructor
  case once => exact h.finishes_once
  case final => exact hsound.final
  case single => exact hsound.single
  case ignored => exact fun text r => c.receive_unlisted
  case unheard => exact fun text r => c.listeners_receive
  case result =>
    intro id v hv
    obtain ⟨d, hd, rfl, hs⟩ := (outcome?_eq_some hsound.distinct).mp hv
    rcases hsound.ended d hd _ hs with ⟨r, ⟨m, hm, hanswers⟩, houtcome⟩ | ⟨text, h⟩ | ⟨text, h⟩
    · unfold outcomeOf at houtcome
      cases he : r.error with
      | none =>
        rw [he] at houtcome
        exact ⟨m, hm, r, hanswers, he, (Except.ok.inj houtcome).symm⟩
      | some e =>
        rw [he] at houtcome
        exact absurd houtcome nofun
    · exact absurd h nofun
    · exact absurd h nofun
  case refusal =>
    intro id text hv
    obtain ⟨d, hd, rfl, hs⟩ := (outcome?_eq_some hsound.distinct).mp hv
    rcases hsound.ended d hd _ hs with ⟨r, ⟨m, hm, hanswers⟩, houtcome⟩ | ⟨text, h⟩ | ⟨text, h⟩
    · unfold outcomeOf at houtcome
      cases he : r.error with
      | none =>
        rw [he] at houtcome
        exact absurd houtcome nofun
      | some e =>
        rw [he] at houtcome
        exact ⟨m, hm, r, e, d.method, hanswers, he, Error.protocol.inj (Except.error.inj houtcome)⟩
    · exact absurd h nofun
    · exact absurd h nofun
  case separate =>
    intro m hm text hact id hchanged
    obtain ⟨_, _, -, -, hstep⟩ := h.before hm
    have hafter : m.after = m.before.receive text := (hact ▸ hstep).receive_eq
    rw [hafter] at hchanged ⊢
    obtain ⟨r, hreply, hid, hlisted⟩ := m.before.command?_receive text hchanged
    refine ⟨⟨r, ⟨text, hact, hreply⟩, hid, hlisted⟩, fun id' hchanged' => ?_⟩
    obtain ⟨r', hreply', hid', -⟩ := m.before.command?_receive text hchanged'
    obtain rfl := Incoming.reply.inj (hreply'.symm.trans hreply)
    exact hid'.symm.trans hid

/-- The replies to two commands cross, one of them comes twice, and one is for nobody. -/
theorem correlated_of_crossing :
    ∃ past c, Course past c ∧ c.outcome? 1 = some (.error (.protocol "A: no (code: -3)")) ∧
      c.outcome? 2 = some (.ok (.nat 7)) ∧ c.registry = [] ∧ Correlated past c := by
  have hA := Course.opened.step (.start (show Connection.start _ "A" = _ from rfl))
  have hB := hA.step (.start (show Connection.start _ "B" = _ from rfl))
  have hlistedB := hB.step (.register (d := ⟨2, "B", .numbered, .nothing⟩) (.tail _ (.head _)) rfl)
  have hlistedA := hlistedB.step (.register (d := ⟨1, "A", .numbered, .nothing⟩) (.head _) rfl)
  have hwrittenA := hlistedA.step (.written (d := ⟨1, "A", .registered, .nothing⟩) (.head _) rfl)
  have hwrittenB := hwrittenA.step
    (.written (d := ⟨2, "B", .registered, .nothing⟩) (.tail _ (.head _)) rfl)
  have hend := ((((((hwrittenB.step (.receive "\x7b\"id\":2,\"result\":7\x7d")).step
    (.receive "\x7b\"id\":2,\"result\":8\x7d")).step (.receive "\x7b\"id\":9\x7d")).step
    (.receive "\x7b\"id\":1,\"error\":\x7b\"code\":-3,\"message\":\"no\"\x7d\x7d")).step
    (.collect 2)).step (.expire 1))
  exact ⟨_, _, hend, by cbv, by cbv, by cbv, correlated_of_course hend⟩

end Wayfind.Connection
