/-
What one step of a connection does to its commands.

The steps of any number of commands, incoming texts and the end of the connection come in
any order; each is an `Act`.  Whatever the act, every command stays in its place and makes
at most one of a few moves (`Command.Moves`), and at most one command is added
(`Step.commands`).  Everything else about the commands follows from that one lemma.
-/
import Mathlib.Data.List.Nodup
import Wayfind.Connection.Basic

namespace Wayfind.Connection

open Protocol (Event Incoming Reply)

/-- What may happen to a connection. -/
inductive Act where
  /-- A new command gets its number. -/
  | start (method : String)
  | register (id : CommandId)
  /-- The request of a command is written. -/
  | written (id : CommandId)
  | writeFailed (id : CommandId)
  /-- A text comes in. -/
  | receive (text : String)
  /-- A command looks at what has come for it. -/
  | collect (id : CommandId)
  /-- The time of a command is over. -/
  | expire (id : CommandId)
  /-- Nobody waits for a command any more. -/
  | abandon (id : CommandId)
  /-- The connection is closed from this side, or its reader has seen the end. -/
  | deactivate
  /-- The reader clears the registry, last of all. -/
  | sever
  | listen
  | unlisten (id : Nat)
  | takeEvents (id count : Nat)

/-- The command has ended. -/
def Command.IsEnded (d : Command) : Prop := ∃ outcome, d.stage = .ended outcome

/-- A step: each command takes its own in their order, everything else may come at any time. -/
inductive Step (c : Connection) : Act → Connection → Prop
  | start {method : String} {id : CommandId} {after : Connection}
      (h : c.start method = .ok (id, after)) : Step c (.start method) after
  | register {d : Command} (hd : d ∈ c.commands) (hs : d.stage = .numbered) :
      Step c (.register d.id) (c.register d.id)
  | written {d : Command} (hd : d ∈ c.commands) (hs : d.stage = .registered) :
      Step c (.written d.id) (c.written d.id)
  | writeFailed {d : Command} (hd : d ∈ c.commands) (hs : d.stage = .registered) :
      Step c (.writeFailed d.id) (c.writeFailed d.id)
  | receive (text : String) : Step c (.receive text) (c.receive text)
  | collect (id : CommandId) : Step c (.collect id) (c.collect id)
  | expire (id : CommandId) : Step c (.expire id) (c.expire id)
  | abandon {d : Command} (hd : d ∈ c.commands) (hs : ¬ d.IsEnded) :
      Step c (.abandon d.id) (c.abandon d.id)
  | deactivate : Step c .deactivate c.deactivate
  | sever : Step c .sever c.sever
  | listen : Step c .listen c.listen.2
  | unlisten (id : Nat) : Step c (.unlisten id) (c.unlisten id)
  | takeEvents (id count : Nat) : Step c (.takeEvents id count) (c.takeEvents id count).2

theorem Step.receive_eq {c after : Connection} {text : String} (h : Step c (.receive text) after) :
    after = c.receive text := by
  generalize hact : Act.receive text = act at h
  cases h with
  | receive text' => rw [Act.receive.inj hact]
  | _ => exact absurd hact nofun

/-- What may become of a command in one step, with such a registry before it. -/
inductive Command.Moves (registry : List CommandId) (act : Act) (d : Command) : Command → Prop
  | stays : Moves registry act d d
  | registers (hs : d.stage = .numbered) (hact : act = .register d.id) :
      Moves registry act d { d with stage := .registered }
  | writes (hs : d.stage = .registered) : Moves registry act d { d with stage := .waiting }
  | fails (hs : d.stage = .registered) :
      Moves registry act d { d with stage := .ended (.error (.webSocket "Failed to send message")) }
  | collects {outcome : Except Error Json} (hs : d.stage = .waiting)
      (harrived : d.arrived = some outcome) :
      Moves registry act d { d with stage := .ended outcome }
  | expires (hs : d.stage = .waiting) :
      Moves registry act d { d with stage := .ended (.error (timedOut d.id d.method)) }
  | abandons (hs : ¬ d.IsEnded) : Moves registry act d { d with stage := .abandoned }
  | receives {text : String} {r : Reply} (hact : act = .receive text)
      (hreply : Incoming.ofText text = .reply r) (hid : r.id = d.id) (hlisted : d.id ∈ registry) :
      Moves registry act d { d with mail := .reply r }
  | severs (hlisted : d.id ∈ registry) : Moves registry act d { d with mail := .severed }

theorem Command.Moves.id {registry : List CommandId} {act : Act} {d d' : Command}
    (h : d.Moves registry act d') : d'.id = d.id := by
  cases h <;> rfl

/-- A command that has ended stays as it has ended. -/
theorem Command.Moves.ended {registry : List CommandId} {act : Act} {d d' : Command}
    (h : d.Moves registry act d') {outcome : Except Error Json} (hs : d.stage = .ended outcome) :
    d'.stage = .ended outcome := by
  cases h with
  | stays | receives | severs => exact hs
  | abandons hnot => exact absurd ⟨outcome, hs⟩ hnot
  | registers hs' | writes hs' | fails hs' | collects hs' | expires hs' =>
    exact absurd (hs'.symm.trans hs) nofun

/-- No command becomes one that is not registered yet. -/
theorem Command.Moves.begun {registry : List CommandId} {act : Act} {d d' : Command}
    (h : d.Moves registry act d') (hs : d.stage ≠ .numbered) : d'.stage ≠ .numbered := by
  cases h with
  | stays | receives | severs => exact hs
  | registers | writes | fails | collects | expires | abandons => exact nofun

section Lookup

variable {c : Connection}

/-- The commands of a connection have numbers of their own. -/
def Distinct (c : Connection) : Prop := (c.commands.map (·.id)).Nodup

theorem Distinct.eq (h : c.Distinct) {d d' : Command} (hd : d ∈ c.commands) (hd' : d' ∈ c.commands)
    (hid : d.id = d'.id) : d = d' :=
  List.inj_on_of_nodup_map h hd hd' hid

theorem mem_of_command? {id : CommandId} {d : Command} (h : c.command? id = some d) :
    d ∈ c.commands ∧ d.id = id :=
  ⟨List.mem_of_find?_eq_some h, by simpa using List.find?_some h⟩

theorem Distinct.command? (h : c.Distinct) {d : Command} (hd : d ∈ c.commands) :
    c.command? d.id = some d := by
  obtain ⟨d', hfound⟩ : ∃ d', c.command? d.id = some d' := by
    refine Option.isSome_iff_exists.mp ?_
    rw [Connection.command?, List.find?_isSome]
    exact ⟨d, hd, beq_self_eq_true d.id⟩
  obtain ⟨hmem, hid⟩ := mem_of_command? hfound
  rw [hfound, h.eq hmem hd hid]

end Lookup

/-- What becomes of the commands in a step: each makes its move, and there may be a new one. -/
structure Progress (c : Connection) (act : Act) (after : Connection) (move : Command → Command)
    (added : List Command) : Prop where
  commands : after.commands = c.commands.map move ++ added
  moves : ∀ d ∈ c.commands, d.Moves c.registry act (move d)
  added_ : (added = [] ∧ after.nextId = c.nextId) ∨
    (∃ method, added = [⟨c.nextId, method, .numbered, .nothing⟩] ∧ after.nextId = c.nextId + 1)
  registry : ∀ id ∈ after.registry, id ∈ c.registry ∨ act = .register id

section Progress

variable {c : Connection} {act : Act} {after : Connection}

/-- Nothing becomes of the commands. -/
theorem progress_same (hcommands : after.commands = c.commands) (hnext : after.nextId = c.nextId)
    (hregistry : after.registry = c.registry) : Progress c act after (fun d => d) [] where
  commands := by rw [hcommands, List.map_id', List.append_nil]
  moves _ _ := .stays
  added_ := Or.inl ⟨rfl, hnext⟩
  registry _ hid := Or.inl (hregistry ▸ hid)

/-- One command makes a move. -/
theorem progress_modify (hdistinct : c.Distinct) {d : Command} (hd : d ∈ c.commands)
    {change : Command → Command} (hmove : d.Moves c.registry act (change d))
    (hcommands : after.commands = (c.modify d.id change).commands) (hnext : after.nextId = c.nextId)
    (hregistry : ∀ id ∈ after.registry, id ∈ c.registry ∨ act = .register id) :
    Progress c act after (fun e => if e.id = d.id then change e else e) [] where
  commands := by rw [hcommands, List.append_nil]; rfl
  moves e he := by
    by_cases hid : e.id = d.id
    · rw [if_pos hid, hdistinct.eq he hd hid]
      exact hmove
    · rw [if_neg hid]
      exact .stays
  added_ := Or.inl ⟨rfl, hnext⟩
  registry := hregistry

theorem mem_unregister {id other : CommandId} :
    other ∈ (c.unregister id).registry ↔ other ∈ c.registry ∧ other ≠ id := by
  simp [unregister]

/-- To collect ends a waiting command for which something has come, or does nothing. -/
theorem collect_cases (c : Connection) (id : CommandId) :
    c.collect id = c ∨ ∃ d outcome, d ∈ c.commands ∧ d.id = id ∧ d.stage = .waiting ∧
      d.arrived = some outcome ∧ c.collect id = c.finish id outcome := by
  unfold collect
  cases hfound : c.command? id with
  | none => exact Or.inl rfl
  | some d =>
    obtain ⟨hd, hid⟩ := mem_of_command? hfound
    dsimp only
    split
    · rename_i outcome hs harrived
      exact Or.inr ⟨d, outcome, hd, hid, hs, harrived, rfl⟩
    · exact Or.inl rfl

/-- To expire collects, or ends a waiting command for which nothing has come. -/
theorem expire_cases (c : Connection) (id : CommandId) :
    c.expire id = c.collect id ∨ c.expire id = c ∨ ∃ d ∈ c.commands, d.id = id ∧
      d.stage = .waiting ∧
      c.expire id = (c.unregister id).finish id (.error (timedOut id d.method)) := by
  unfold expire
  cases hfound : (c.collect id).command? id with
  | none => exact Or.inr (Or.inl rfl)
  | some d =>
    dsimp only
    split
    · rename_i hs
      rcases collect_cases c id with hsame | ⟨e, outcome, he, heid, hwaiting, -, hcollect⟩
      · rw [hsame] at hfound ⊢
        obtain ⟨hd, hid⟩ := mem_of_command? hfound
        exact Or.inr (Or.inr ⟨d, hd, hid, hs, rfl⟩)
      · -- A command that was collected does not wait any more.
        obtain ⟨hd, hid⟩ := mem_of_command? hfound
        rw [hcollect] at hd
        obtain ⟨e', -, rfl⟩ := List.mem_map.mp hd
        have he' : e'.id = id := by
          by_contra hne
          rw [if_neg hne] at hid
          exact hne hid
        rw [if_pos he'] at hs
        exact absurd hs nofun
    · exact Or.inl rfl

theorem progress_collect (hdistinct : c.Distinct) (id : CommandId) :
    ∃ move added, Progress c act (c.collect id) move added := by
  rcases collect_cases c id with hsame | ⟨d, outcome, hd, rfl, hs, harrived, hcollect⟩
  · rw [hsame]
    exact ⟨_, _, progress_same rfl rfl rfl⟩
  · rw [hcollect]
    exact ⟨_, _, progress_modify hdistinct hd (.collects hs harrived) rfl rfl fun _ h => Or.inl h⟩

/-- Whatever the step, every command makes at most one move, and at most one is added. -/
theorem Step.progress (h : Step c act after) (hdistinct : c.Distinct) :
    ∃ move added, Progress c act after move added := by
  cases h with
  | @start method id after h =>
    unfold Connection.start at h
    by_cases hactive : c.active = true
    · rw [if_pos hactive] at h
      obtain ⟨-, rfl⟩ := Prod.mk.inj (Except.ok.inj h)
      refine ⟨fun d => d, _, ?_, fun _ _ => .stays, Or.inr ⟨method, rfl, rfl⟩, fun _ h => Or.inl h⟩
      rw [List.map_id']
    · rw [if_neg hactive] at h
      exact absurd h nofun
  | @register d hd hs =>
    refine ⟨_, _, progress_modify hdistinct hd (.registers hs rfl) rfl rfl fun id hid => ?_⟩
    rcases List.mem_cons.mp hid with rfl | hid
    · exact Or.inr rfl
    · exact Or.inl hid
  | @written d hd hs =>
    exact ⟨_, _, progress_modify hdistinct hd (.writes hs) rfl rfl fun _ h => Or.inl h⟩
  | @writeFailed d hd hs =>
    exact ⟨_, _, progress_modify hdistinct hd (.fails hs) rfl rfl fun _ h =>
      Or.inl (mem_unregister.mp h).1⟩
  | receive text =>
    unfold Connection.receive
    split
    · rename_i r hreply
      unfold Connection.reply
      by_cases hlisted : c.registry.contains r.id = true
      · rw [if_pos hlisted]
        refine ⟨fun d => if d.id = r.id then { d with mail := .reply r } else d, [], ?_, ?_,
          Or.inl ⟨rfl, rfl⟩, fun _ h => Or.inl (mem_unregister.mp h).1⟩
        · rw [List.append_nil]
          rfl
        · intro d hd
          by_cases hid : d.id = r.id
          · rw [if_pos hid]
            exact .receives rfl hreply hid.symm (hid ▸ List.contains_iff_mem.mp hlisted)
          · rw [if_neg hid]
            exact .stays
      · rw [if_neg hlisted]
        exact ⟨_, _, progress_same rfl rfl rfl⟩
    · exact ⟨_, _, progress_same rfl rfl rfl⟩
    · exact ⟨_, _, progress_same rfl rfl rfl⟩
  | collect id => exact progress_collect hdistinct id
  | expire id =>
    rcases expire_cases c id with hsame | hsame | ⟨d, hd, rfl, hs, hexpire⟩
    · rw [hsame]
      exact progress_collect hdistinct id
    · rw [hsame]
      exact ⟨_, _, progress_same rfl rfl rfl⟩
    · rw [hexpire]
      exact ⟨_, _, progress_modify hdistinct hd (.expires hs) rfl rfl fun _ h =>
        Or.inl (mem_unregister.mp h).1⟩
  | @abandon d hd hs =>
    exact ⟨_, _, progress_modify hdistinct hd (.abandons hs) rfl rfl fun _ h => Or.inl h⟩
  | sever =>
    refine ⟨fun d => if c.registry.contains d.id then { d with mail := .severed } else d, [], ?_, ?_,
      Or.inl ⟨rfl, rfl⟩, fun _ h => absurd h List.not_mem_nil⟩
    · rw [List.append_nil]
      rfl
    · intro d hd
      by_cases hlisted : c.registry.contains d.id = true
      · rw [if_pos hlisted]
        exact .severs (List.contains_iff_mem.mp hlisted)
      · rw [if_neg hlisted]
        exact .stays
  | deactivate | listen | unlisten | takeEvents => exact ⟨_, _, progress_same rfl rfl rfl⟩

end Progress

end Wayfind.Connection
